import Starrysky.Kqueue.Queue

/-!
# The representation invariant of the queue

`QueueOk s l` says that the queue `s` holds the elements `l`: its links form the ring of `l` and its
counter is the length of `l`, within the capacity. `Moves` lists what a call can do to the elements
and what it replies; `step_moves` shows that a call on a queue that satisfies the invariant is one
of these moves and keeps the invariant, so every later result is a case analysis on `Moves` and no
proof opens the macros again. `reachable_ok` is the invariant of every run, and
`reachable_wellLinked` reads it off the links.
-/

namespace Starrysky.Kqueue

open Reactive

/-- The number of elements a queue of capacity `m` can hold. -/
def capacity (m : Int32) : ℕ := m.toInt.toNat

/-- The queue `s` holds the elements `l`, the front first. -/
structure QueueOk (s : Queue) (l : List Addr) : Prop where
  ring : s.heap.Ring s.ql.head l
  cur : s.ql.cur.toInt = l.length
  bound : l.length ≤ capacity s.ql.max

/-- What a call can do to the elements of a queue of capacity `cap`, with its reply. -/
inductive Moves (cap : ℕ) : List Addr → Op → Reply → List Addr → Prop
  | pushFront {l n} : l.length < cap → Moves cap l (.enqueue n) (.code 0) (n :: l)
  | pushBack {l n} : l.length < cap → Moves cap l (.enqueueTail n) (.code 0) (l ++ [n])
  | popFront {l n a} : Moves cap (a :: l) (.dequeue n) (.elem 0 a) l
  | popBack {l n a} : Moves cap (l ++ [a]) (.dequeueTail n) (.elem 0 a) l
  | fullFront {l n} : cap ≤ l.length → Moves cap l (.enqueue n) (.code (-1)) l
  | fullBack {l n} : cap ≤ l.length → Moves cap l (.enqueueTail n) (.code (-1)) l
  | emptyFront {n} : Moves cap [] (.dequeue n) (.elem (-1) n) []
  | emptyBack {n} : Moves cap [] (.dequeueTail n) (.elem (-1) n) []
  | len {l} : Moves cap l .queueLen (.len l.length) l

variable {s : Queue} {l : List Addr} {n a : Addr} {op : Op}

/-! ## Arithmetic of the counter -/

/-- `cur++` below some `int` does not wrap. -/
theorem toInt_add_one {c m : Int32} (h : c < m) : (c + 1).toInt = c.toInt + 1 := by
  have hcm := Int32.lt_iff_toInt_lt.1 h
  have hm := m.toInt_lt
  have hc := c.le_toInt
  rw [Int32.toInt_add, Int32.toInt_one]
  exact Int.bmod_eq_of_le (by omega) (by omega)

/-- `cur--` above zero does not wrap. -/
theorem toInt_sub_one {c : Int32} (h : 0 < c) : (c - 1).toInt = c.toInt - 1 := by
  have h0 := Int32.lt_iff_toInt_lt.1 h
  have hc := c.toInt_lt
  rw [Int32.toInt_zero] at h0
  rw [Int32.toInt_sub, Int32.toInt_one]
  exact Int.bmod_eq_of_le (by omega) (by omega)

/-! ## The invariant -/

theorem queueInit_ok (h : Heap) (head : Addr) (m : Int32) : QueueOk (queueInit h head m) [] :=
  ⟨initListHead_ring h head, rfl, Nat.zero_le _⟩

/-- The macros' test for a full queue. -/
theorem QueueOk.full_iff (ok : QueueOk s l) :
    s.ql.max ≤ s.ql.cur ↔ capacity s.ql.max ≤ l.length := by
  rw [Int32.le_iff_toInt_le, ok.cur, capacity]
  omega

/-- The macros' test for an empty queue. -/
theorem QueueOk.empty_iff (ok : QueueOk s l) : s.ql.cur ≤ 0 ↔ l = [] := by
  rw [Int32.le_iff_toInt_le, ok.cur, Int32.toInt_zero, ← List.length_eq_zero_iff]
  omega

/-- The elements of a queue are the linked addresses other than the sentinel. -/
theorem QueueOk.linked_iff (ok : QueueOk s l) :
    s.heap.Linked s.ql.head a ↔ a ∈ s.ql.head :: l := ok.ring.linked_iff

/-! ## What each macro does -/

theorem enqueue_of_full (off : Addr) (n : Addr) (h : s.ql.max ≤ s.ql.cur) :
    enqueue off s n = (-1, s) := if_pos h

theorem enqueueTail_of_full (off : Addr) (n : Addr) (h : s.ql.max ≤ s.ql.cur) :
    enqueueTail off s n = (-1, s) := if_pos h

theorem enqueue_of_room (off : Addr) (n : Addr) (h : ¬ s.ql.max ≤ s.ql.cur) :
    enqueue off s n = (0, { heap := listAdd s.heap (n + off) s.ql.head
                            ql := { s.ql with cur := s.ql.cur + 1 } }) := if_neg h

theorem enqueueTail_of_room (off : Addr) (n : Addr) (h : ¬ s.ql.max ≤ s.ql.cur) :
    enqueueTail off s n = (0, { heap := listAddTail s.heap (n + off) s.ql.head
                                ql := { s.ql with cur := s.ql.cur + 1 } }) := if_neg h

theorem dequeue_of_some (off : Addr) (n : Addr) (h : ¬ s.ql.cur ≤ 0) :
    dequeue off s n = ((0, containerOf off (s.heap.next s.ql.head)),
      { heap := listDel s.heap (s.heap.next s.ql.head)
        ql := { s.ql with cur := s.ql.cur - 1 } }) := if_neg h

theorem dequeueTail_of_some (off : Addr) (n : Addr) (h : ¬ s.ql.cur ≤ 0) :
    dequeueTail off s n = ((0, containerOf off (s.heap.prev s.ql.head)),
      { heap := listDel s.heap (s.heap.prev s.ql.head)
        ql := { s.ql with cur := s.ql.cur - 1 } }) := if_neg h

theorem dequeue_of_empty (off : Addr) (n : Addr) (h : s.ql.cur ≤ 0) :
    dequeue off s n = ((-1, n), s) := if_pos h

theorem dequeueTail_of_empty (off : Addr) (n : Addr) (h : s.ql.cur ≤ 0) :
    dequeueTail off s n = ((-1, n), s) := if_pos h

/-- The counter after a push, when there was room. -/
theorem QueueOk.cur_push (ok : QueueOk s l) (h : ¬ s.ql.max ≤ s.ql.cur) :
    (s.ql.cur + 1).toInt = (l.length + 1 : ℕ) := by
  rw [toInt_add_one (Int32.not_le.1 h), ok.cur]
  rfl

/-- The counter after a pop, when there was an element. -/
theorem QueueOk.cur_pop (ok : QueueOk s l) (h : ¬ s.ql.cur ≤ 0) :
    (s.ql.cur - 1).toInt = l.length - 1 := by
  rw [toInt_sub_one (Int32.not_le.1 h), ok.cur]

/-- `enqueue` links an element that is in no list at the front of a queue that has room. -/
theorem QueueOk.enqueue (ok : QueueOk s l) (h : ¬ s.ql.max ≤ s.ql.cur)
    (hn : n ∉ s.ql.head :: l) : (enqueue hellomsgNode s n).1 = 0 ∧
      QueueOk (enqueue hellomsgNode s n).2 (n :: l) := by
  have hlt : l.length < capacity s.ql.max := Nat.not_le.1 (mt ok.full_iff.2 h)
  rw [enqueue_of_room _ _ h, add_hellomsgNode]
  exact ⟨rfl, listAdd_ring ok.ring hn, ok.cur_push h, hlt⟩

/-- `enqueue_tail` links an element that is in no list at the back of a queue that has room. -/
theorem QueueOk.enqueueTail (ok : QueueOk s l) (h : ¬ s.ql.max ≤ s.ql.cur)
    (hn : n ∉ s.ql.head :: l) : (enqueueTail hellomsgNode s n).1 = 0 ∧
      QueueOk (enqueueTail hellomsgNode s n).2 (l ++ [n]) := by
  have hlt : l.length < capacity s.ql.max := Nat.not_le.1 (mt ok.full_iff.2 h)
  rw [enqueueTail_of_room _ _ h, add_hellomsgNode]
  exact ⟨rfl, listAddTail_ring ok.ring hn, by simpa using ok.cur_push h,
    by simpa [Nat.succ_le_iff] using hlt⟩

/-- `dequeue` hands out the front element. -/
theorem QueueOk.dequeue (ok : QueueOk s (a :: l)) (n : Addr) :
    (dequeue hellomsgNode s n).1 = (0, a) ∧ QueueOk (dequeue hellomsgNode s n).2 l := by
  have hcur : ¬ s.ql.cur ≤ 0 := fun h => List.cons_ne_nil a l (ok.empty_iff.1 h)
  have hnext : s.heap.next s.ql.head = a := ok.ring.next_head
  rw [dequeue_of_some _ _ hcur, hnext, containerOf_hellomsgNode]
  exact ⟨rfl, listDel_ring_front ok.ring, by simpa using ok.cur_pop hcur,
    Nat.le_of_succ_le ok.bound⟩

/-- `dequeue_tail` hands out the back element. -/
theorem QueueOk.dequeueTail (ok : QueueOk s (l ++ [a])) (n : Addr) :
    (dequeueTail hellomsgNode s n).1 = (0, a) ∧ QueueOk (dequeueTail hellomsgNode s n).2 l := by
  have hcur : ¬ s.ql.cur ≤ 0 := fun h => by simpa using ok.empty_iff.1 h
  have hprev : s.heap.prev s.ql.head = a := ok.ring.prev_head
  have hbound : l.length + 1 ≤ capacity s.ql.max := by simpa using ok.bound
  rw [dequeueTail_of_some _ _ hcur, hprev, containerOf_hellomsgNode]
  exact ⟨rfl, listDel_ring_back ok.ring, by simpa using ok.cur_pop hcur,
    Nat.le_of_succ_le hbound⟩

/-! ## What a call does -/

/-- **Step lemma.** A call on a queue that satisfies the invariant makes one of the moves and keeps
the invariant. -/
theorem step_moves (ok : QueueOk s l) (hop : op.Ok s) :
    ∃ l', Moves (capacity s.ql.max) l op (step s op).1 l' ∧ QueueOk (step s op).2 l' := by
  have hfree : ∀ n ∈ op.node, n ∉ s.ql.head :: l := fun n hn => mt ok.linked_iff.2 (hop n hn)
  cases op with
  | enqueue n =>
    by_cases h : s.ql.max ≤ s.ql.cur
    · exact ⟨l, by simpa [step, enqueue_of_full _ _ h] using Moves.fullFront (ok.full_iff.1 h),
        by simpa [step, enqueue_of_full _ _ h] using ok⟩
    · obtain ⟨hret, ok'⟩ := ok.enqueue h (hfree n (by simp [Op.node]))
      exact ⟨n :: l, by
        simpa [step, hret] using Moves.pushFront (Nat.not_le.1 (mt ok.full_iff.2 h)), ok'⟩
  | enqueueTail n =>
    by_cases h : s.ql.max ≤ s.ql.cur
    · exact ⟨l, by simpa [step, enqueueTail_of_full _ _ h] using Moves.fullBack (ok.full_iff.1 h),
        by simpa [step, enqueueTail_of_full _ _ h] using ok⟩
    · obtain ⟨hret, ok'⟩ := ok.enqueueTail h (hfree n (by simp [Op.node]))
      exact ⟨l ++ [n], by
        simpa [step, hret] using Moves.pushBack (Nat.not_le.1 (mt ok.full_iff.2 h)), ok'⟩
  | dequeue n =>
    rcases l with _ | ⟨a, l⟩
    · have h := ok.empty_iff.2 rfl
      exact ⟨[], by simpa [step, dequeue_of_empty _ _ h] using Moves.emptyFront,
        by simpa [step, dequeue_of_empty _ _ h] using ok⟩
    · obtain ⟨hret, ok'⟩ := ok.dequeue n
      exact ⟨l, by simpa [step, hret] using Moves.popFront, ok'⟩
  | dequeueTail n =>
    rcases l.eq_nil_or_concat' with rfl | ⟨l, a, rfl⟩
    · have h := ok.empty_iff.2 rfl
      exact ⟨[], by simpa [step, dequeueTail_of_empty _ _ h] using Moves.emptyBack,
        by simpa [step, dequeueTail_of_empty _ _ h] using ok⟩
    · obtain ⟨hret, ok'⟩ := ok.dequeueTail n
      exact ⟨l, by simpa [step, hret] using Moves.popBack, ok'⟩
  | queueLen => exact ⟨l, by simpa [step, queueLen, ok.cur] using Moves.len, ok⟩

/-- No call moves the sentinel or changes the capacity. -/
theorem step_head_max (s : Queue) (op : Op) :
    (step s op).2.ql.head = s.ql.head ∧ (step s op).2.ql.max = s.ql.max := by
  cases op with
  | enqueue n => by_cases h : s.ql.max ≤ s.ql.cur <;> simp [step, enqueue, h]
  | enqueueTail n => by_cases h : s.ql.max ≤ s.ql.cur <;> simp [step, enqueueTail, h]
  | dequeue n => by_cases h : s.ql.cur ≤ 0 <;> simp [step, dequeue, h]
  | dequeueTail n => by_cases h : s.ql.cur ≤ 0 <;> simp [step, dequeueTail, h]
  | queueLen => exact ⟨rfl, rfl⟩

/-- **Refusal.** A call that is refused leaves the heap and the queue as they were. -/
theorem step_of_refused (h : (step s op).1.Refused) : (step s op).2 = s := by
  cases op with
  | enqueue n =>
    by_cases hf : s.ql.max ≤ s.ql.cur
    · simp [step, enqueue_of_full _ _ hf]
    · simp [step, enqueue, hf, Reply.Refused] at h
  | enqueueTail n =>
    by_cases hf : s.ql.max ≤ s.ql.cur
    · simp [step, enqueueTail_of_full _ _ hf]
    · simp [step, enqueueTail, hf, Reply.Refused] at h
  | dequeue n =>
    by_cases hf : s.ql.cur ≤ 0
    · simp [step, dequeue_of_empty _ _ hf]
    · simp [step, dequeue, hf, Reply.Refused] at h
  | dequeueTail n =>
    by_cases hf : s.ql.cur ≤ 0
    · simp [step, dequeueTail_of_empty _ _ hf]
    · simp [step, dequeueTail, hf, Reply.Refused] at h
  | queueLen => rfl

/-- A pop that is refused hands back what the caller's variable held. -/
theorem elem_of_refused (h : (step s op).1.Refused) (hop : op = .dequeue n ∨ op = .dequeueTail n) :
    (step s op).1 = .elem (-1) n := by
  rcases hop with rfl | rfl
  · by_cases hf : s.ql.cur ≤ 0
    · rw [step, dequeue_of_empty _ _ hf]
    · simp [step, dequeue, hf, Reply.Refused] at h
  · by_cases hf : s.ql.cur ≤ 0
    · rw [step, dequeueTail_of_empty _ _ hf]
    · simp [step, dequeueTail, hf, Reply.Refused] at h

/-- **Frame.** A call writes no link but those of its sentinel, of the elements of its queue and of
the element it is passed. -/
theorem step_sameAt (ok : QueueOk s l) (ha : a ∉ s.ql.head :: l) (hn : a ∉ op.node) :
    s.heap.SameAt (step s op).2.heap a := by
  have off : ∀ {b}, b ∈ s.ql.head :: l → a ≠ b := fun hb e => ha (e ▸ hb)
  have hhead : s.ql.head ∈ s.ql.head :: l := by simp
  have hnext := ok.ring.next_mem hhead
  have hprev := ok.ring.prev_mem hhead
  cases op with
  | enqueue n =>
    by_cases hf : s.ql.max ≤ s.ql.cur
    · simp [step, enqueue, hf, Heap.SameAt]
    · simpa [step, enqueue, hf] using
        listAdd_sameAt (by simpa [Op.node] using hn) (off hhead) (off hnext)
  | enqueueTail n =>
    by_cases hf : s.ql.max ≤ s.ql.cur
    · simp [step, enqueueTail, hf, Heap.SameAt]
    · simpa [step, enqueueTail, hf] using
        listAddTail_sameAt (by simpa [Op.node] using hn) (off hhead) (off hprev)
  | dequeue n =>
    by_cases hf : s.ql.cur ≤ 0
    · simp [step, dequeue, hf, Heap.SameAt]
    · simpa [step, dequeue, hf] using listDel_sameAt (off hnext) (off (ok.ring.next_mem hnext))
        (off (ok.ring.prev_mem hnext))
  | dequeueTail n =>
    by_cases hf : s.ql.cur ≤ 0
    · simp [step, dequeueTail, hf, Heap.SameAt]
    · simpa [step, dequeueTail, hf] using listDel_sameAt (off hprev)
        (off (ok.ring.next_mem hprev)) (off (ok.ring.prev_mem hprev))
  | queueLen => exact ⟨rfl, rfl⟩

/-- The elements after a call were there before it, or are the one it was passed. -/
theorem Moves.mem {cap : ℕ} {l l' : List Addr} {r : Reply} (h : Moves cap l op r l')
    (ha : a ∈ l') : a ∈ l ∨ a ∈ op.node := by
  cases h with
  | pushFront | pushBack => simpa [Op.node, or_comm] using ha
  | popFront => exact .inl (List.mem_cons_of_mem _ ha)
  | popBack => exact .inl (List.mem_append_left _ ha)
  | fullFront | fullBack | emptyFront | emptyBack | len => exact .inl ha

/-! ## Every reachable queue -/

/-- An address that an object can have: the poison pointers are never mapped. -/
def IsObject (a : Addr) : Prop := a ≠ LIST_POISON1 ∧ a ≠ LIST_POISON2

instance (a : Addr) : Decidable (IsObject a) := inferInstanceAs (Decidable (_ ∧ _))

/-- A client that passes to an enqueue only elements whose `node`, at the offset `off`, is in no
list and is a part of an object. -/
def Client (off : Addr) (s : Queue) (op : Op) : Prop :=
  op.OkAt off s ∧ ∀ n ∈ op.node, IsObject (n + off)

/-- After every script of such a client the links are those of a list of objects, for the sentinel
and the capacity that the queue was initialised with. -/
theorem reachable_ok {off : Addr} {m : Int32} {h₀ : Heap} {head : Addr} {ops : List Op}
    (hops : Allowed (stepAt off) (Client off) (queueInit h₀ head m) ops) :
    ∃ l, QueueOk (after (stepAt off) (queueInit h₀ head m) ops) l ∧ (∀ a ∈ l, IsObject a) ∧
      (after (stepAt off) (queueInit h₀ head m) ops).ql.head = head ∧
      (after (stepAt off) (queueInit h₀ head m) ops).ql.max = m := by
  refine after_induction (P := fun s => ∃ l, QueueOk s l ∧ (∀ a ∈ l, IsObject a) ∧
    s.ql.head = head ∧ s.ql.max = m) ?_ ⟨[], queueInit_ok .., by simp, rfl, rfl⟩ hops
  rintro s op ⟨l, ok, hl, hhead, hmax⟩ ⟨hop, hobj⟩
  rw [stepAt_eq]
  obtain ⟨l', hm, ok'⟩ := step_moves ok (Op.okAt_iff.1 hop)
  obtain ⟨hhead', hmax'⟩ := step_head_max s (op.map (· + off))
  refine ⟨l', ok', fun a ha => ?_, hhead'.trans hhead, hmax'.trans hmax⟩
  rcases hm.mem ha with ha | ha
  · exact hl a ha
  · rw [Op.node_map] at ha
    obtain ⟨n, hn, rfl⟩ := List.mem_map.1 ha
    exact hobj n hn

/-- The links and the counter of a queue are those of a list of `cur` elements, at most `m` and at
most as many as fit: `next` visits them and comes back to the sentinel, `prev` visits them in the
reverse order, the two undo each other, no visited link is a poison pointer, and neither `cur++` nor
`cur--` can wrap where the macros reach it. -/
structure WellLinked (m : Int32) (head : Addr) (s : Queue) : Prop where
  visits : ∃ l : List Addr, (head :: l).Nodup ∧ l.length = s.ql.cur.toInt ∧
    (∀ i (hi : i < l.length), s.heap.next^[i + 1] head = l[i]) ∧
    s.heap.next^[l.length + 1] head = head ∧
    (∀ i (hi : i < l.reverse.length), s.heap.prev^[i + 1] head = l.reverse[i]) ∧
    s.heap.prev^[l.length + 1] head = head
  inverse : ∀ x, s.heap.Linked head x →
    s.heap.prev (s.heap.next x) = x ∧ s.heap.next (s.heap.prev x) = x
  unpoisoned : ∀ x, s.heap.Linked head x → IsObject (s.heap.next x) ∧ IsObject (s.heap.prev x)
  nonneg : 0 ≤ s.ql.cur.toInt
  le_max : s.ql.cur.toInt ≤ max m.toInt 0
  incr : ¬ s.ql.max ≤ s.ql.cur → s.ql.cur.toInt + 1 ≤ Int32.maxValue.toInt ∧
    (s.ql.cur + 1).toInt = s.ql.cur.toInt + 1
  decr : ¬ s.ql.cur ≤ 0 → 0 ≤ s.ql.cur.toInt - 1 ∧ (s.ql.cur - 1).toInt = s.ql.cur.toInt - 1

/-- **The representation invariant** of every state a client can bring a queue into, whatever the
capacity and wherever its elements have their `node`. -/
theorem reachable_wellLinked {off : Addr} {m : Int32} {h₀ : Heap} {head : Addr} {ops : List Op}
    (hhead : IsObject head)
    (hops : Allowed (stepAt off) (Client off) (queueInit h₀ head m) ops) :
    WellLinked m head (after (stepAt off) (queueInit h₀ head m) ops) := by
  obtain ⟨l, ok, hobj, hh, hm⟩ := reachable_ok hops
  generalize after (stepAt off) (queueInit h₀ head m) ops = s at *
  subst hh hm
  have hnode : ∀ x ∈ s.ql.head :: l, IsObject x := by
    intro x hx
    rcases List.mem_cons.1 hx with rfl | hx
    · exact hhead
    · exact hobj x hx
  have hcap : (l.length : ℤ) ≤ max s.ql.max.toInt 0 := by
    have := ok.bound
    rw [capacity] at this
    omega
  constructor
  case visits =>
    refine ⟨l, ok.ring.nodup, ok.cur.symm, fun i hi => ok.ring.iterate_next hi,
      ok.ring.iterate_next_length, fun i hi => ok.ring.reverse.iterate_next hi, ?_⟩
    simpa using ok.ring.reverse.iterate_next_length
  case inverse =>
    intro x hx
    have hx := ok.linked_iff.1 hx
    exact ⟨ok.ring.prev_next hx, ok.ring.next_prev hx⟩
  case unpoisoned =>
    intro x hx
    have hx := ok.linked_iff.1 hx
    exact ⟨hnode _ (ok.ring.next_mem hx), hnode _ (ok.ring.prev_mem hx)⟩
  case nonneg => rw [ok.cur]; omega
  case le_max => rw [ok.cur]; exact hcap
  case incr =>
    intro h
    have hlt := Int32.not_le.1 h
    have := toInt_add_one hlt
    exact ⟨this ▸ Int32.toInt_le _, this⟩
  case decr =>
    intro h
    have hlt := Int32.not_le.1 h
    have hpos := Int32.lt_iff_toInt_lt.1 hlt
    rw [Int32.toInt_zero] at hpos
    exact ⟨by omega, toInt_sub_one hlt⟩

theorem reachable_wellLinked_push_pop :
    WellLinked 1 0x8000 (after (stepAt 8) (queueInit ⟨id, id⟩ 0x8000 1)
      [.enqueue 0x1000, .dequeueTail 0]) :=
  reachable_wellLinked (by decide) (by
    have hfree : ¬ (queueInit ⟨id, id⟩ 0x8000 1).heap.Linked 0x8000 (0x1000 + 8) :=
      mt (queueInit_ok ..).linked_iff.1 (by decide)
    have hok : Client 8 (queueInit ⟨id, id⟩ 0x8000 1) (.enqueue 0x1000) := by
      constructor <;> intro n hn <;> obtain rfl := List.mem_singleton.1 hn
      · exact hfree
      · decide
    exact ⟨hok, ⟨nofun, nofun⟩, trivial⟩)

end Starrysky.Kqueue
