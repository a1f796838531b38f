import Starrysky.Kqueue.Refine

/-!
# Elements whose `node` is not their first member

The macros link `&n->node` and compute an element from a link by a subtraction that counts in
`struct list_head`s, not in bytes. The links of elements whose member `node` is at the offset `off`
move as for any other elements (`stepAt_moves`), but a dequeue hands out the base address less
fifteen times the offset, which is the base address at offset 0 only (`containerOf_add`,
`handsOutBases_iff`).
-/

namespace Starrysky.Kqueue

open Reactive

/-- The call takes an element out. -/
def Op.Pops : Op → Prop
  | .dequeue _ | .dequeueTail _ => True
  | .enqueue _ | .enqueueTail _ | .queueLen => False

instance (op : Op) : Decidable op.Pops :=
  match op with
  | .dequeue _ | .dequeueTail _ => .isTrue trivial
  | .enqueue _ | .enqueueTail _ | .queueLen => .isFalse id

/-- The dequeues of a script hand out the base addresses that were passed to the enqueues, as the
abstract deque of the base addresses does. -/
def HandsOutBases (off : Addr) (m : Int32) (h₀ : Heap) (head : Addr) (ops : List Op) : Prop :=
  outputs (stepAt off) (queueInit h₀ head m) ops =
    outputs Deque.step (BoundedDeque.empty : Deque (capacity m)) ops

variable {off : Addr} {s : Queue} {op : Op} {m : Int32} {r r' : Reply} {l l' : List Addr} {n : Addr}
  {cap : ℕ}

/-- What a call does to the links of elements, it does to the elements. -/
theorem Moves.of_map {f : Addr → Addr} (h : Moves cap (l.map f) (op.map f) r l') :
    ∃ r₀ l₀, Moves cap l op r₀ l₀ ∧ r = r₀.map f ∧ l' = l₀.map f := by
  generalize hL : l.map f = L at h
  have hlength : l.length = L.length := by rw [← hL, List.length_map]
  cases op with
  | enqueue n => cases h with
    | pushFront hlt => exact ⟨_, _, .pushFront (hlength ▸ hlt), rfl, by rw [← hL]; rfl⟩
    | fullFront hle => exact ⟨_, _, .fullFront (hlength ▸ hle), rfl, hL.symm⟩
  | enqueueTail n => cases h with
    | pushBack hlt => exact ⟨_, _, .pushBack (hlength ▸ hlt), rfl, by simp [← hL]⟩
    | fullBack hle => exact ⟨_, _, .fullBack (hlength ▸ hle), rfl, hL.symm⟩
  | dequeue n => cases h with
    | popFront =>
      obtain ⟨a, l, rfl, rfl, rfl⟩ := List.map_eq_cons_iff.1 hL
      exact ⟨_, _, .popFront, rfl, rfl⟩
    | emptyFront =>
      obtain rfl := List.map_eq_nil_iff.1 hL
      exact ⟨_, _, .emptyFront, rfl, rfl⟩
  | dequeueTail n => cases h with
    | popBack =>
      obtain ⟨l, l₂, rfl, rfl, hlast⟩ := List.map_eq_append_iff.1 hL
      obtain ⟨a, rfl, rfl⟩ := List.map_eq_singleton_iff.1 hlast
      exact ⟨_, _, .popBack, rfl, rfl⟩
    | emptyBack =>
      obtain rfl := List.map_eq_nil_iff.1 hL
      exact ⟨_, _, .emptyBack, rfl, rfl⟩
  | queueLen => cases h with
    | len => exact ⟨_, _, .len, by rw [← hlength]; rfl, hL.symm⟩

theorem Reply.map_map {f g : Addr → Addr} : (r.map f).map g = r.map fun n => g (f n) := by
  cases r with
  | code | len => rfl
  | elem ret n => by_cases h : ret = 0 <;> simp [Reply.map, h]

/-- **Step lemma.** A queue that holds the links of the elements `l` makes a move on `l`, but hands
out what the subtraction makes of a link. -/
theorem stepAt_moves (ok : QueueOk s (l.map (· + off))) (hop : op.OkAt off s) :
    ∃ r l', Moves (capacity s.ql.max) l op r l' ∧
      (stepAt off s op).1 = r.map (fun n => containerOf off (n + off)) ∧
      QueueOk (stepAt off s op).2 (l'.map (· + off)) := by
  obtain ⟨l', hm, ok'⟩ := step_moves ok (Op.okAt_iff.1 hop)
  obtain ⟨r, l₀, hm₀, hr, rfl⟩ := hm.of_map
  rw [stepAt_eq]
  exact ⟨r, l₀, hm₀, by rw [hr, Reply.map_map], ok'⟩

/-- The subtraction in the dequeues undoes the addition in the enqueues at offset 0 only. -/
theorem containerOf_add : containerOf off (n + off) = n ↔ off = 0 := by
  constructor
  · intro h
    -- 15 is a unit modulo `2 ^ 64`
    have hunit : (15 : Addr) * 0xeeeeeeeeeeeeeeef = 1 := by decide
    have h15 : off * 15 = 0 := by
      rw [containerOf, sizeofListHead] at h
      grind
    calc off = off * (15 * 0xeeeeeeeeeeeeeeef) := by rw [hunit, UInt64.mul_one]
      _ = off * 15 * 0xeeeeeeeeeeeeeeef := (UInt64.mul_assoc ..).symm
      _ = 0 := by rw [h15, UInt64.zero_mul]
  · rintro rfl
    simp [containerOf]

/-- A call gets the reply that it would get for the base addresses, unless it pops an element whose
`node` is not at offset 0. -/
theorem Moves.map_eq_iff (h : Moves cap l op r l') :
    r.map (fun n => containerOf off (n + off)) = r ↔ off = 0 ∨ (op.Pops → l = []) := by
  cases h with
  | pushFront | pushBack | fullFront | fullBack | len => simp [Reply.map, Op.Pops]
  | popFront | popBack => simp [Reply.map, Op.Pops, containerOf_add]
  | emptyFront | emptyBack => simp [Reply.map, Op.Pops]

/-- A script gets the replies of the abstract deque exactly if no call of it takes an element out,
or the elements have their `node` at offset 0. -/
theorem outputs_stepAt_iff {ops : List Op} {d : Deque (capacity m)} (hm : s.ql.max = m)
    (ok : QueueOk s (d.items.map (· + off)))
    (hops : Allowed (stepAt off) (fun s op => op.OkAt off s) s ops) :
    outputs (stepAt off) s ops = outputs Deque.step d ops ↔
      off = 0 ∨ Allowed (stepAt off) (fun s op => op.Pops → s.ql.cur ≤ 0) s ops := by
  induction ops generalizing s d with
  | nil => simp
  | cons op ops ih =>
    obtain ⟨hop, hops⟩ := hops
    obtain ⟨r, l', hmove, hr, ok'⟩ := stepAt_moves ok hop
    obtain ⟨hdr, hdl⟩ := Deque.step_of_moves (hm ▸ hmove) rfl
    have hm' : (stepAt off s op).2.ql.max = m := by
      rw [stepAt_eq, (step_head_max s _).2, hm]
    have hempty : s.ql.cur ≤ 0 ↔ d.items = [] := by
      rw [ok.empty_iff, List.map_eq_nil_iff]
    rw [outputs_cons, outputs_cons, allowed_cons, List.cons.injEq, hr, hdr, hmove.map_eq_iff,
      ih hm' (hdl ▸ ok') hops, hempty, or_and_left]

/-- **The dequeues hand out base addresses exactly for elements with `node` at offset 0.** For every
capacity, every offset and every script in which each element passed to an enqueue is not in the
list at that moment: each dequeue hands out the base address of the element that the abstract deque
hands out, if and only if the offset is 0 or no call of the script takes an element out. -/
theorem handsOutBases_iff {off : Addr} {m : Int32} {h₀ : Heap} {head : Addr} {ops : List Op}
    (hops : Allowed (stepAt off) (fun s op => op.OkAt off s) (queueInit h₀ head m) ops) :
    HandsOutBases off m h₀ head ops ↔ off = 0 ∨
      Allowed (stepAt off) (fun s op => op.Pops → s.ql.cur ≤ 0) (queueInit h₀ head m) ops :=
  outputs_stepAt_iff rfl (queueInit_ok ..) hops

theorem handsOutBases_hellomsg :
    HandsOutBases 0 1 ⟨id, id⟩ 0x8000 [.enqueue 0x1000, .dequeueTail 0] := by
  have hfree : ¬ (queueInit ⟨id, id⟩ 0x8000 1).heap.Linked 0x8000 (0x1000 + 0) :=
    mt (queueInit_ok ..).linked_iff.1 (by decide)
  have hops : Allowed (stepAt 0) (fun s op => op.OkAt 0 s) (queueInit ⟨id, id⟩ 0x8000 1)
      [.enqueue 0x1000, .dequeueTail 0] :=
    ⟨fun n hn => List.mem_singleton.1 hn ▸ hfree, nofun, trivial⟩
  exact (handsOutBases_iff hops).2 (.inl rfl)

/-- With `node` at offset 8, the element at 0x1000 comes out as 0xf88. -/
theorem not_handsOutBases_offset_eight :
    outputs (stepAt 8) (queueInit ⟨id, id⟩ 0x8000 1) [.enqueue 0x1000, .dequeue 0] =
        [.code 0, .elem 0 0xf88] ∧
      ¬ HandsOutBases 8 1 ⟨id, id⟩ 0x8000 [.enqueue 0x1000, .dequeue 0] := by
  refine ⟨by decide, fun h => ?_⟩
  have hreplies : ([.code 0, .elem 0 0xf88] : List Reply) = [.code 0, .elem 0 0x1000] :=
    (by decide : _ = _).symm.trans (h.trans (by decide))
  exact absurd hreplies (by decide)

end Starrysky.Kqueue
