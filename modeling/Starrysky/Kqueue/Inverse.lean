import Starrysky.Kqueue.Invariant

/-!
# A push and a pop at one end undo each other

On every link of the heap and not on the sequence of elements only: a pop after a push leaves the
poison in the links of the element it took, and every other link as it was (`QueueOk.pop_push`), and
a push after a pop writes the poisoned links over with those that were there
(`QueueOk.enqueue_dequeue`). The sentinel may be the neighbour on both sides.
-/

namespace Starrysky.Kqueue

open Reactive

/-- The queue is as it was, and so is every link but those of the node `n`. -/
structure RestoredOff (s t : Queue) (n : Addr) : Prop where
  ql : t.ql = s.ql
  links : ∀ a, a ≠ n → s.heap.SameAt t.heap a

variable {h : Heap} {head n a : Addr} {s : Queue} {l : List Addr}

/-! ## The list primitives -/

/-- `list_del` undoes `list_add`, the links of the node apart. -/
theorem listDel_listAdd (hn : n ≠ head) (hp : h.prev (h.next head) = head)
    (ha : a ≠ n) : h.SameAt (listDel (listAdd h n head) n) a := by
  have hprev' : (listAdd h n head).prev n = head := by simp [listAdd_prev]
  have hnext' : (listAdd h n head).next n = h.next head := by simp [listAdd_next, hn]
  constructor
  · rw [listDel_next, hprev', hnext', Function.update_of_ne ha, listAdd_next]
    by_cases hh : a = head
    · rw [hh, Function.update_self]
    · rw [Function.update_of_ne hh, Function.update_of_ne hh, Function.update_of_ne ha]
  · rw [listDel_prev, hprev', hnext', Function.update_of_ne ha, listAdd_prev]
    by_cases hh : a = h.next head
    · rw [hh, Function.update_self, hp]
    · rw [Function.update_of_ne hh, Function.update_of_ne ha, Function.update_of_ne hh]

/-- `list_del` undoes `list_add_tail`, the links of the node apart. -/
theorem listDel_listAddTail (hprev : h.prev head ≠ n) (hp : h.next (h.prev head) = head)
    (ha : a ≠ n) : h.SameAt (listDel (listAddTail h n head) n) a := by
  have hprev' : (listAddTail h n head).prev n = h.prev head := by simp [listAddTail_prev]
  have hnext' : (listAddTail h n head).next n = head := by
    simp [listAddTail_next, hprev.symm]
  constructor
  · rw [listDel_next, hprev', hnext', Function.update_of_ne ha, listAddTail_next]
    by_cases hh : a = h.prev head
    · rw [hh, Function.update_self, hp]
    · rw [Function.update_of_ne hh, Function.update_of_ne hh, Function.update_of_ne ha]
  · rw [listDel_prev, hprev', hnext', Function.update_of_ne ha, listAddTail_prev]
    by_cases hh : a = head
    · rw [hh, Function.update_self]
    · rw [Function.update_of_ne hh, Function.update_of_ne ha, Function.update_of_ne hh]

/-- `list_add` undoes `list_del` of the front node, its own links included. -/
theorem listAdd_listDel (hn : h.next head = n) (hp : h.prev n = head) (hne : n ≠ head)
    (hself : h.next n ≠ n) (hback : h.prev (h.next n) = n) : listAdd (listDel h n) n head = h := by
  have hnext' : (listDel h n).next head = h.next n := by simp [listDel_next, hp, hne.symm]
  ext a
  · rw [listAdd_next, hnext', listDel_next, hp]
    by_cases hh : a = head
    · rw [hh, Function.update_self, hn]
    · by_cases ha : a = n
      · rw [ha, Function.update_of_ne hne, Function.update_self]
      · simp only [Function.update_of_ne hh, Function.update_of_ne ha]
  · rw [listAdd_prev, hnext', listDel_prev, hp]
    by_cases ha : a = n
    · rw [ha, Function.update_self, hp]
    · by_cases hh : a = h.next n
      · rw [hh, Function.update_of_ne hself, Function.update_self, hback]
      · simp only [Function.update_of_ne hh, Function.update_of_ne ha]

/-- `list_add_tail` undoes `list_del` of the back node, its own links included. -/
theorem listAddTail_listDel (hp : h.prev head = n) (hn : h.next n = head) (hne : n ≠ head)
    (hself : h.prev n ≠ n) (hback : h.next (h.prev n) = n) :
    listAddTail (listDel h n) n head = h := by
  have hprev' : (listDel h n).prev head = h.prev n := by simp [listDel_prev, hn, hne.symm]
  ext a
  · rw [listAddTail_next, hprev', listDel_next, hn]
    by_cases hh : a = h.prev n
    · rw [hh, Function.update_self, hback]
    · by_cases ha : a = n
      · rw [ha, Function.update_of_ne hself.symm, Function.update_self, hn]
      · simp only [Function.update_of_ne hh, Function.update_of_ne ha]
  · rw [listAddTail_prev, hprev', listDel_prev, hn]
    by_cases ha : a = n
    · rw [ha, Function.update_self]
    · by_cases hh : a = head
      · rw [hh, Function.update_of_ne hne.symm, Function.update_self, hp]
      · simp only [Function.update_of_ne hh, Function.update_of_ne ha]

/-! ## The macros -/

variable {x : Addr}

theorem cur_incr_decr (c : Int32) : c + 1 - 1 = c :=
  Int32.toBitVec_inj.1 (BitVec.add_sub_cancel ..)

theorem step_enqueue (h : ¬ s.ql.max ≤ s.ql.cur) : step s (.enqueue n) =
    (.code 0, { heap := listAdd s.heap n s.ql.head, ql := { s.ql with cur := s.ql.cur + 1 } }) := by
  rw [step, enqueue_of_room _ _ h, add_hellomsgNode]

theorem step_enqueueTail (h : ¬ s.ql.max ≤ s.ql.cur) : step s (.enqueueTail n) =
    (.code 0,
      { heap := listAddTail s.heap n s.ql.head, ql := { s.ql with cur := s.ql.cur + 1 } }) := by
  rw [step, enqueueTail_of_room _ _ h, add_hellomsgNode]

theorem step_dequeue (h : ¬ s.ql.cur ≤ 0) : step s (.dequeue x) =
    (.elem 0 (s.heap.next s.ql.head),
      { heap := listDel s.heap (s.heap.next s.ql.head)
        ql := { s.ql with cur := s.ql.cur - 1 } }) := by
  rw [step, dequeue_of_some _ _ h, containerOf_hellomsgNode]

theorem step_dequeueTail (h : ¬ s.ql.cur ≤ 0) : step s (.dequeueTail x) =
    (.elem 0 (s.heap.prev s.ql.head),
      { heap := listDel s.heap (s.heap.prev s.ql.head)
        ql := { s.ql with cur := s.ql.cur - 1 } }) := by
  rw [step, dequeueTail_of_some _ _ h, containerOf_hellomsgNode]

/-- `dequeue` after `enqueue`. -/
theorem QueueOk.dequeue_enqueue (ok : QueueOk s l) (hroom : ¬ s.ql.max ≤ s.ql.cur)
    (hn : n ∉ s.ql.head :: l) : step (step s (.enqueue n)).2 (.dequeue x) =
      (.elem 0 n, { heap := listDel (listAdd s.heap n s.ql.head) n, ql := s.ql }) := by
  obtain ⟨-, ok'⟩ := ok.enqueue hroom hn
  have hsome := mt ok'.empty_iff.1 (List.cons_ne_nil n l)
  have hnext := ok'.ring.next_head
  rw [enqueue_of_room _ _ hroom, add_hellomsgNode] at hsome hnext
  rw [step_enqueue hroom, step_dequeue hsome, hnext, cur_incr_decr]

/-- `dequeue_tail` after `enqueue_tail`. -/
theorem QueueOk.dequeueTail_enqueueTail (ok : QueueOk s l) (hroom : ¬ s.ql.max ≤ s.ql.cur)
    (hn : n ∉ s.ql.head :: l) : step (step s (.enqueueTail n)).2 (.dequeueTail x) =
      (.elem 0 n, { heap := listDel (listAddTail s.heap n s.ql.head) n, ql := s.ql }) := by
  obtain ⟨-, ok'⟩ := ok.enqueueTail hroom hn
  have hsome := mt ok'.empty_iff.1 (by simp)
  have hprev := ok'.ring.prev_head
  rw [enqueueTail_of_room _ _ hroom, add_hellomsgNode] at hsome hprev
  rw [step_enqueueTail hroom, step_dequeueTail hsome, hprev, cur_incr_decr]

/-- `enqueue` after `dequeue`, of the element that came out. -/
theorem QueueOk.enqueue_dequeue (ok : QueueOk s (n :: l)) :
    (step s (.dequeue x)).1 = .elem 0 n ∧
      step (step s (.dequeue x)).2 (.enqueue n) = (.code 0, s) := by
  have hsome := mt ok.empty_iff.1 (List.cons_ne_nil n l)
  have hnext := ok.ring.next_head
  obtain ⟨-, ok'⟩ := ok.dequeue x
  have hroom := mt ok'.full_iff.1
  rw [dequeue_of_some _ _ hsome, hnext] at hroom
  have hroom := hroom (Nat.not_le.2 ok.bound)
  have hlinks : listAdd (listDel s.heap n) n s.ql.head = s.heap :=
    listAdd_listDel hnext ok.ring.prev_front (fun e => ok.ring.head_notMem (by simp [e]))
      ok.ring.next_front_ne (ok.ring.prev_next (by simp))
  rw [step_dequeue hsome, hnext, step_enqueue hroom, hlinks, Int32.sub_add_cancel]
  exact ⟨rfl, rfl⟩

/-- `enqueue_tail` after `dequeue_tail`, of the element that came out. -/
theorem QueueOk.enqueueTail_dequeueTail (ok : QueueOk s (l ++ [n])) :
    (step s (.dequeueTail x)).1 = .elem 0 n ∧
      step (step s (.dequeueTail x)).2 (.enqueueTail n) = (.code 0, s) := by
  have hsome := mt ok.empty_iff.1 (by simp)
  have hprev := ok.ring.prev_head
  have hbound : l.length + 1 ≤ capacity s.ql.max := by simpa using ok.bound
  obtain ⟨-, ok'⟩ := ok.dequeueTail x
  have hroom := mt ok'.full_iff.1
  rw [dequeueTail_of_some _ _ hsome, hprev] at hroom
  have hroom := hroom (Nat.not_le.2 hbound)
  have hlinks : listAddTail (listDel s.heap n) n s.ql.head = s.heap :=
    listAddTail_listDel hprev ok.ring.next_back (fun e => ok.ring.head_notMem (by simp [e]))
      ok.ring.prev_back_ne (ok.ring.next_prev (by simp))
  rw [step_dequeueTail hsome, hprev, step_enqueueTail hroom, hlinks, Int32.sub_add_cancel]
  exact ⟨rfl, rfl⟩

/-- A push and a pop of an element that is in no list. -/
theorem QueueOk.pop_push (ok : QueueOk s l) (hroom : ¬ s.ql.max ≤ s.ql.cur)
    (hn : n ∉ s.ql.head :: l) :
    RestoredOff s (step (step s (.enqueue n)).2 (.dequeue x)).2 n ∧
      RestoredOff s (step (step s (.enqueueTail n)).2 (.dequeueTail x)).2 n := by
  have hhead : s.ql.head ∈ s.ql.head :: l := List.mem_cons_self
  have hne : n ≠ s.ql.head := fun e => hn (e ▸ hhead)
  have hprev : s.heap.prev s.ql.head ≠ n := ne_of_mem_of_not_mem (ok.ring.prev_mem hhead) hn
  rw [ok.dequeue_enqueue hroom hn, ok.dequeueTail_enqueueTail hroom hn]
  exact ⟨⟨rfl, fun a ha => listDel_listAdd hne (ok.ring.prev_next hhead) ha⟩,
    ⟨rfl, fun a ha => listDel_listAddTail hprev (ok.ring.next_prev hhead) ha⟩⟩

/-- **A push and a pop at one end are inverse to each other** in every reachable state. If the queue
has room and `n` is in no list, `dequeue` after `enqueue` hands out `n` and restores the queue and
every link but those of `n`. If the queue is not empty, `enqueue` of what `dequeue` has handed out
succeeds and restores the queue and the whole heap. The same holds at the other end. -/
theorem push_pop_inverse {m : Int32} {h₀ : Heap} {head : Addr} {ops : List Op} {s : Queue}
    (hops : Allowed step (fun s op => op.Ok s) (queueInit h₀ head m) ops)
    (hs : after step (queueInit h₀ head m) ops = s) :
    (¬ s.ql.max ≤ s.ql.cur → ∀ n x, ¬ s.heap.Linked s.ql.head n →
      ((step s (.enqueue n)).1 = .code 0 ∧
        (step (step s (.enqueue n)).2 (.dequeue x)).1 = .elem 0 n ∧
        RestoredOff s (step (step s (.enqueue n)).2 (.dequeue x)).2 n) ∧
      ((step s (.enqueueTail n)).1 = .code 0 ∧
        (step (step s (.enqueueTail n)).2 (.dequeueTail x)).1 = .elem 0 n ∧
        RestoredOff s (step (step s (.enqueueTail n)).2 (.dequeueTail x)).2 n)) ∧
    (¬ s.ql.cur ≤ 0 → ∀ x,
      (∃ n, (step s (.dequeue x)).1 = .elem 0 n ∧
        step (step s (.dequeue x)).2 (.enqueue n) = (.code 0, s)) ∧
      (∃ n, (step s (.dequeueTail x)).1 = .elem 0 n ∧
        step (step s (.dequeueTail x)).2 (.enqueueTail n) = (.code 0, s))) := by
  obtain ⟨l, ok⟩ : ∃ l, QueueOk s l := by
    rw [← hs]
    refine after_induction (P := fun s => ∃ l, QueueOk s l) ?_ ⟨[], queueInit_ok ..⟩ hops
    rintro s op ⟨l, ok⟩ hop
    obtain ⟨l', -, ok'⟩ := step_moves ok hop
    exact ⟨l', ok'⟩
  refine ⟨fun hroom n x hn => ?_, fun hsome x => ?_⟩
  · have hfree : n ∉ s.ql.head :: l := mt ok.linked_iff.2 hn
    obtain ⟨hfront, hback⟩ := ok.pop_push (x := x) hroom hfree
    refine ⟨⟨by rw [step_enqueue hroom], by rw [ok.dequeue_enqueue hroom hfree], hfront⟩,
      ⟨by rw [step_enqueueTail hroom], by rw [ok.dequeueTail_enqueueTail hroom hfree], hback⟩⟩
  · have hne : l ≠ [] := mt ok.empty_iff.2 hsome
    constructor
    · obtain ⟨n, l', rfl⟩ := List.exists_cons_of_ne_nil hne
      exact ⟨n, ok.enqueue_dequeue⟩
    · obtain ⟨l', n, rfl⟩ := (l.eq_nil_or_concat').resolve_left hne
      exact ⟨n, ok.enqueueTail_dequeueTail⟩

theorem push_pop_inverse_full :
    ∃ n, (step (after step (queueInit ⟨id, id⟩ 0x8000 1) [.enqueue 0x1000]) (.dequeue 0)).1 =
        .elem 0 n ∧
      step (step (after step (queueInit ⟨id, id⟩ 0x8000 1) [.enqueue 0x1000]) (.dequeue 0)).2
          (.enqueue n) =
        (.code 0, after step (queueInit ⟨id, id⟩ 0x8000 1) [.enqueue 0x1000]) := by
  have hfree : ¬ (queueInit ⟨id, id⟩ 0x8000 1).heap.Linked 0x8000 0x1000 :=
    mt (queueInit_ok ..).linked_iff.1 (by decide)
  have hops : Allowed step (fun s op => op.Ok s) (queueInit ⟨id, id⟩ 0x8000 1)
      [.enqueue 0x1000] := ⟨fun n hn => List.mem_singleton.1 hn ▸ hfree, trivial⟩
  exact ((push_pop_inverse hops rfl).2 (by decide) 0).1

end Starrysky.Kqueue
