import Starrysky.Kqueue.Refine

/-!
# The two ends are mirror images

A script run with the ends swapped does to the list read along `prev` what the script does to the
list read along `next`. The return codes and the counter agree whatever the client passes, since the
macros look at nothing else than the counter (`step_mirror`). The elements and the links agree as
long as the client enqueues only elements that are in no list (`mirror_images`): a node that
`list_add` finds linked is entangled in the list in one way and by `list_add_tail` in another
(`not_mirrored_linked_twice`).
-/

namespace Starrysky.Kqueue

open Reactive

/-- The same call at the other end. -/
def Op.mirror : Op → Op
  | .enqueue n => .enqueueTail n
  | .enqueueTail n => .enqueue n
  | .dequeue n => .dequeueTail n
  | .dequeueTail n => .dequeue n
  | .queueLen => .queueLen

/-- The return code of a reply, or the length it reports. -/
def Reply.ret : Reply → ℤ
  | .code ret | .elem ret _ => ret.toInt
  | .len cur => cur

/-- The links of one list are those of the other with `next` and `prev` swapped. -/
structure Mirrored (head : Addr) (h h' : Heap) : Prop where
  linked : ∀ a, h'.Linked head a ↔ h.Linked head a
  next : ∀ a, h.Linked head a → h'.next a = h.prev a
  prev : ∀ a, h.Linked head a → h'.prev a = h.next a

variable {s t : Queue} {l l' l'' : List Addr} {op : Op} {ops : List Op} {r r' : Reply} {cap : ℕ}
  {m : Int32} {head : Addr} {h₀ h₀' : Heap}

/-! ## The counter -/

/-- The return code and the counter after a call depend on the counter before it only. -/
theorem step_mirror (op : Op) (hmax : t.ql.max = s.ql.max) (hcur : t.ql.cur = s.ql.cur) :
    (step t op.mirror).1.ret = (step s op).1.ret ∧
      (step t op.mirror).2.ql.max = (step s op).2.ql.max ∧
      (step t op.mirror).2.ql.cur = (step s op).2.ql.cur := by
  cases op with
  | enqueue | enqueueTail =>
    by_cases h : s.ql.max ≤ s.ql.cur <;>
      simp [Op.mirror, step, enqueue, enqueueTail, hmax, hcur, h, Reply.ret]
  | dequeue | dequeueTail =>
    by_cases h : s.ql.cur ≤ 0 <;>
      simp [Op.mirror, step, dequeue, dequeueTail, hmax, hcur, h, Reply.ret]
  | queueLen => simp [Op.mirror, step, queueLen, hmax, hcur, Reply.ret]

/-! ## The elements and the links -/

/-- A call makes at the other end of the reversed list the move that it makes at its own. -/
theorem Moves.mirror (h : Moves cap l op r l') : Moves cap l.reverse op.mirror r l'.reverse := by
  cases h with
  | pushFront hlt =>
    simpa [Op.mirror] using Moves.pushBack (l := l.reverse) (by simpa using hlt)
  | pushBack hlt =>
    simpa [Op.mirror] using Moves.pushFront (l := l.reverse) (by simpa using hlt)
  | popFront => simpa [Op.mirror] using Moves.popBack
  | popBack => simpa [Op.mirror] using Moves.popFront
  | fullFront hle => exact .fullBack (by simpa using hle)
  | fullBack hle => exact .fullFront (by simpa using hle)
  | emptyFront => exact .emptyBack
  | emptyBack => exact .emptyFront
  | len => simpa [Op.mirror] using Moves.len (l := l.reverse)

/-- A call makes one move. -/
theorem Moves.unique (hl : l.length ≤ cap) (h : Moves cap l op r l') (h' : Moves cap l op r' l'') :
    r' = r ∧ l'' = l' := by
  obtain ⟨hr, hl'⟩ := Deque.step_of_moves (d := ⟨l, hl⟩) h rfl
  obtain ⟨hr', hl''⟩ := Deque.step_of_moves (d := ⟨l, hl⟩) h' rfl
  exact ⟨hr'.symm.trans hr, hl''.symm.trans hl'⟩

/-- The second queue holds the elements of the first one in the reverse order. -/
structure MirrorOk (s t : Queue) (l : List Addr) : Prop where
  left : QueueOk s l
  right : QueueOk t l.reverse
  head : t.ql.head = s.ql.head
  max : t.ql.max = s.ql.max

theorem MirrorOk.linked_iff {a : Addr} (ok : MirrorOk s t l) :
    t.heap.Linked s.ql.head a ↔ s.heap.Linked s.ql.head a := by
  rw [ok.left.linked_iff, ← ok.head, ok.right.linked_iff, ok.head]
  simp

theorem MirrorOk.mirrored (ok : MirrorOk s t l) : Mirrored s.ql.head s.heap t.heap := by
  have hring : LinkRing t.heap.prev t.heap.next s.ql.head l := by
    simpa [Heap.Ring, ok.head] using ok.right.ring.reverse
  have hlinks := fun a (ha : s.heap.Linked s.ql.head a) =>
    ok.left.ring.links_eq hring (ok.left.linked_iff.1 ha)
  exact ⟨fun a => ok.linked_iff, fun a ha => (hlinks a ha).2, fun a ha => (hlinks a ha).1⟩

/-- A call and its mirror image get the same reply, and leave the one queue in the reverse order of
the other. -/
theorem MirrorOk.step (ok : MirrorOk s t l) (hop : op.Ok s) :
    (step t op.mirror).1 = (step s op).1 ∧
      ∃ l', MirrorOk (step s op).2 (step t op.mirror).2 l' := by
  have hop' : op.mirror.Ok t := by
    have hnode : op.mirror.node = op.node := by cases op <;> rfl
    intro n hn
    rw [ok.head, ok.linked_iff]
    exact hop n (hnode ▸ hn)
  obtain ⟨l', hm, ok'⟩ := step_moves ok.left hop
  obtain ⟨l'', hm', ok''⟩ := step_moves ok.right hop'
  rw [ok.max] at hm'
  obtain ⟨hr, rfl⟩ := hm.mirror.unique (by simpa using ok.left.bound) hm'
  obtain ⟨hhead, hmax⟩ := step_head_max s op
  obtain ⟨hhead', hmax'⟩ := step_head_max t op.mirror
  exact ⟨hr, l', ok', ok'', by rw [hhead', hhead, ok.head], by rw [hmax', hmax, ok.max]⟩

/-! ## Two runs -/

/-- **Run lemma** for the return codes and the counter. -/
theorem mirror_codes (hmax : t.ql.max = s.ql.max) (hcur : t.ql.cur = s.ql.cur) :
    (outputs step t (ops.map Op.mirror)).map Reply.ret = (outputs step s ops).map Reply.ret ∧
      (after step t (ops.map Op.mirror)).ql.cur = (after step s ops).ql.cur := by
  have hfree : Allowed step (fun _ _ => True) s ops := allowed_true
  obtain ⟨hrets, -, hcur'⟩ := translation Op.mirror Reply.ret
    (R := fun (s t : Queue) => t.ql.max = s.ql.max ∧ t.ql.cur = s.ql.cur)
    (fun s t op hst _ => (step_mirror op hst.1 hst.2).imp_left Eq.symm) ⟨hmax, hcur⟩ hfree
  exact ⟨hrets.symm, hcur'⟩

/-- **Run lemma** for the elements and the links. -/
theorem mirror_elements (ok : MirrorOk s t l) (hops : Allowed step (fun s op => op.Ok s) s ops) :
    outputs step t (ops.map Op.mirror) = outputs step s ops ∧
      ∃ l', MirrorOk (after step s ops) (after step t (ops.map Op.mirror)) l' := by
  have hsim : ∀ s t op, (∃ l, MirrorOk s t l) → op.Ok s →
      id (step s op).1 = id (step t op.mirror).1 ∧
        ∃ l', MirrorOk (step s op).2 (step t op.mirror).2 l' := by
    rintro s t op ⟨l, ok⟩ hop
    exact (ok.step hop).imp_left Eq.symm
  obtain ⟨houtputs, hafter⟩ := translation Op.mirror id hsim ⟨l, ok⟩ hops
  rw [List.map_id, List.map_id] at houtputs
  exact ⟨houtputs.symm, hafter⟩

theorem Op.mirror_map {f : Addr → Addr} : (op.map f).mirror = op.mirror.map f := by
  cases op <;> rfl

theorem Reply.ret_map {f : Addr → Addr} : (r.map f).ret = r.ret := by
  cases r <;> rfl

/-- The mirrored script is that of the links. -/
theorem map_mirror_map {f : Addr → Addr} :
    (ops.map Op.mirror).map (Op.map f) = (ops.map (Op.map f)).map Op.mirror := by
  simp only [List.map_map]
  exact List.map_congr_left fun op _ => Op.mirror_map.symm

/-- **The two ends are mirror images.** For every capacity, every offset of `node`, every script of
calls and each of its first parts: the run with the ends swapped gives the same return codes and the
same counter. If each element passed to an enqueue is not in the list at that moment, it gives the
same replies, the elements handed out included, and its links are those of the other run with `next`
and `prev` swapped. -/
theorem mirror_images {off : Addr} {m : Int32} {h₀ h₀' : Heap} {head : Addr} {ops pre : List Op}
    (hpre : pre <+: ops) :
    ((outputs (stepAt off) (queueInit h₀' head m) (pre.map Op.mirror)).map Reply.ret =
        (outputs (stepAt off) (queueInit h₀ head m) pre).map Reply.ret ∧
      (after (stepAt off) (queueInit h₀' head m) (pre.map Op.mirror)).ql.cur =
        (after (stepAt off) (queueInit h₀ head m) pre).ql.cur) ∧
    (Allowed (stepAt off) (fun s op => op.OkAt off s) (queueInit h₀ head m) ops →
      outputs (stepAt off) (queueInit h₀' head m) (pre.map Op.mirror) =
          outputs (stepAt off) (queueInit h₀ head m) pre ∧
        Mirrored head (after (stepAt off) (queueInit h₀ head m) pre).heap
          (after (stepAt off) (queueInit h₀' head m) (pre.map Op.mirror)).heap) := by
  obtain ⟨houts, hafter⟩ := run_stepAt off (queueInit h₀ head m) pre
  obtain ⟨houts', hafter'⟩ := run_stepAt off (queueInit h₀' head m) (pre.map Op.mirror)
  rw [map_mirror_map] at houts' hafter'
  have hret : ∀ rs : List Reply, (rs.map (Reply.map (containerOf off))).map Reply.ret =
      rs.map Reply.ret := fun rs => by
    rw [List.map_map]
    exact List.map_congr_left fun r _ => Reply.ret_map
  rw [houts, houts', hafter, hafter', hret, hret]
  refine ⟨mirror_codes rfl rfl, fun hops => ?_⟩
  obtain ⟨post, rfl⟩ := hpre
  have hlinks := allowed_stepAt.1 hops.left
  have ok : MirrorOk (queueInit h₀ head m) (queueInit h₀' head m) [] :=
    ⟨queueInit_ok .., queueInit_ok .., rfl, rfl⟩
  obtain ⟨houtputs, l, hmirror⟩ := mirror_elements ok hlinks
  have hhead : (after step (queueInit h₀ head m) (pre.map (Op.map (· + off)))).ql.head = head :=
    after_induction (P := fun s => s.ql.head = head)
      (fun s op hs _ => (step_head_max s op).1.trans hs) rfl hlinks
  have hmirrored := hmirror.mirrored
  rw [hhead] at hmirrored
  exact ⟨congrArg _ houtputs, hmirrored⟩

theorem mirror_images_two :
    outputs (stepAt 8) (queueInit ⟨id, id⟩ 0x8000 2) [.enqueueTail 0x1000, .enqueueTail 0x2000,
        .dequeue 0] =
      outputs (stepAt 8) (queueInit ⟨id, id⟩ 0x8000 2) [.enqueue 0x1000, .enqueue 0x2000,
        .dequeueTail 0] := by
  have hlinks : Allowed step (fun s op => op.Ok s) (queueInit ⟨id, id⟩ 0x8000 2)
      [.enqueue 0x1008, .enqueue 0x2008, .dequeueTail 0] :=
    allowed_of_deque (d := BoundedDeque.empty) rfl rfl (queueInit_ok ..) (by decide)
  have hops : Allowed (stepAt 8) (fun s op => op.OkAt 8 s) (queueInit ⟨id, id⟩ 0x8000 2)
      [.enqueue 0x1000, .enqueue 0x2000, .dequeueTail 0] := allowed_stepAt.2 hlinks
  exact ((mirror_images (List.prefix_refl _)).2 hops).1

/-- A node that is enqueued while it is linked: `list_add` leaves its `prev` link at the sentinel,
and `list_add_tail` its `next` link at itself. -/
theorem not_mirrored_linked_twice :
    (after step (queueInit ⟨id, id⟩ 0x8000 2) [.enqueue 0x1000, .enqueue 0x1000]).heap.prev 0x1000 =
        0x8000 ∧
      (after step (queueInit ⟨id, id⟩ 0x8000 2)
        ([.enqueue 0x1000, .enqueue 0x1000].map Op.mirror)).heap.next 0x1000 = 0x1000 ∧
      ¬ Mirrored 0x8000
        (after step (queueInit ⟨id, id⟩ 0x8000 2) [.enqueue 0x1000, .enqueue 0x1000]).heap
        (after step (queueInit ⟨id, id⟩ 0x8000 2)
          ([.enqueue 0x1000, .enqueue 0x1000].map Op.mirror)).heap := by
  have hprev : (after step (queueInit ⟨id, id⟩ 0x8000 2)
      [.enqueue 0x1000, .enqueue 0x1000]).heap.prev 0x1000 = 0x8000 := by decide
  have hnext : (after step (queueInit ⟨id, id⟩ 0x8000 2)
      ([.enqueue 0x1000, .enqueue 0x1000].map Op.mirror)).heap.next 0x1000 = 0x1000 := by decide
  refine ⟨hprev, hnext, fun h => ?_⟩
  have hswapped := h.next 0x1000 ⟨1, by decide⟩
  rw [hprev, hnext] at hswapped
  exact absurd hswapped (by decide)

end Starrysky.Kqueue
