import Starrysky.Kqueue.Refine

/-!
# The client's duty is exact

`step_moves` needs that an element passed to an enqueue is not linked at that moment. Nothing less
would do: an enqueue that links an element a second time leaves links that are the ring of no list
(`QueueOk.not_relink`), for the links it writes stay within the nodes that were linked before, and
the counter says that there is one more. Only a full queue excuses the client, since it refuses the
element. So a script keeps the queue a queue in every state it goes through exactly if its client
keeps to its duty whenever the queue has room (`keeps_queue_iff`).
-/

namespace Starrysky.Kqueue

open Reactive

variable {s : Queue} {h : Heap} {head n x : Addr} {l l' : List Addr} {op : Op} {ops : List Op}
  {m : Int32}

/-- The links of the queue are those of some list of elements, within the capacity. -/
def IsQueue (s : Queue) : Prop := ∃ l, QueueOk s l

/-- An enqueue of the client is refused, or it passes an element that is not linked. -/
def Op.Duty (s : Queue) (op : Op) : Prop := op.Ok s ∨ (step s op).1.Refused

/-! ## Linking a node a second time -/

/-- `list_add` of a linked node links nothing else in. -/
theorem listAdd_closed (hr : h.Ring head l) (hn : n ∈ head :: l) (hx : x ∈ head :: l) :
    (listAdd h n head).next x ∈ head :: l := by
  rw [listAdd_next]
  by_cases hxh : x = head
  · rwa [hxh, Function.update_self]
  · rw [Function.update_of_ne hxh]
    by_cases hxn : x = n
    · rw [hxn, Function.update_self]
      exact hr.next_mem List.mem_cons_self
    · rw [Function.update_of_ne hxn]
      exact hr.next_mem hx

theorem listAddTail_closed (hr : h.Ring head l) (hn : n ∈ head :: l) (hx : x ∈ head :: l) :
    (listAddTail h n head).next x ∈ head :: l := by
  rw [listAddTail_next]
  by_cases hxp : x = h.prev head
  · rwa [hxp, Function.update_self]
  · rw [Function.update_of_ne hxp]
    by_cases hxn : x = n
    · rw [hxn, Function.update_self]
      exact List.mem_cons_self
    · rw [Function.update_of_ne hxn]
      exact hr.next_mem hx

/-- An enqueue that links an element a second time leaves no queue. -/
theorem QueueOk.not_relink (ok : QueueOk s l) (hroom : ¬ s.ql.max ≤ s.ql.cur)
    (hop : op = .enqueue n ∨ op = .enqueueTail n) (hn : n ∈ s.ql.head :: l) :
    ¬ IsQueue (step s op).2 := by
  rintro ⟨l', ok'⟩
  have hlen : l'.length < (s.ql.head :: l).length ∧ (l'.length : ℤ) = (l.length + 1 : ℕ) := by
    rcases hop with rfl | rfl
    · rw [step, enqueue_of_room _ _ hroom, add_hellomsgNode] at ok'
      refine ⟨ok'.ring.length_lt List.mem_cons_self fun x hx => listAdd_closed ok.ring hn hx, ?_⟩
      exact ok'.cur.symm.trans (ok.cur_push hroom)
    · rw [step, enqueueTail_of_room _ _ hroom, add_hellomsgNode] at ok'
      refine ⟨ok'.ring.length_lt List.mem_cons_self
        fun x hx => listAddTail_closed ok.ring hn hx, ?_⟩
      exact ok'.cur.symm.trans (ok.cur_push hroom)
  simp only [List.length_cons] at hlen
  omega

/-! ## What keeps a queue a queue -/

/-- An enqueue is refused exactly by a full queue. -/
theorem refused_iff (hop : op = .enqueue n ∨ op = .enqueueTail n) :
    (step s op).1.Refused ↔ s.ql.max ≤ s.ql.cur := by
  by_cases hfull : s.ql.max ≤ s.ql.cur
  · rcases hop with rfl | rfl
    · simp [step, enqueue_of_full _ _ hfull, Reply.Refused, hfull]
    · simp [step, enqueueTail_of_full _ _ hfull, Reply.Refused, hfull]
  · rcases hop with rfl | rfl
    · simp [step, enqueue_of_room _ _ hfull, Reply.Refused, hfull]
    · simp [step, enqueueTail_of_room _ _ hfull, Reply.Refused, hfull]

/-- **Step lemma.** A call keeps a queue a queue exactly if the client keeps to its duty. -/
theorem QueueOk.isQueue_iff (ok : QueueOk s l) : IsQueue (step s op).2 ↔ op.Duty s := by
  constructor
  · intro hqueue
    by_contra hduty
    obtain ⟨hop, hrefused⟩ := not_or.1 hduty
    simp only [Op.Ok, not_forall, not_not] at hop
    obtain ⟨n, hn, hlinked⟩ := hop
    have henqueue : op = .enqueue n ∨ op = .enqueueTail n := by
      cases op with
      | enqueue | enqueueTail => simpa [Op.node, eq_comm] using hn
      | dequeue | dequeueTail | queueLen => simp [Op.node] at hn
    exact ok.not_relink (mt (refused_iff henqueue).2 hrefused) henqueue (ok.linked_iff.1 hlinked)
      hqueue
  · rintro (hop | hrefused)
    · obtain ⟨l', -, ok'⟩ := step_moves ok hop
      exact ⟨l', ok'⟩
    · rw [step_of_refused hrefused]
      exact ⟨l, ok⟩

/-- Under its duty a client finds that the queue makes the moves of a deque. -/
theorem QueueOk.moves_of_duty (ok : QueueOk s l) (hduty : op.Duty s) :
    ∃ l', Moves (capacity s.ql.max) l op (step s op).1 l' ∧ QueueOk (step s op).2 l' := by
  by_cases hop : op.Ok s
  · exact step_moves ok hop
  · have hrefused := hduty.resolve_left hop
    refine ⟨l, ?_, by rwa [step_of_refused hrefused]⟩
    cases op with
    | enqueue n =>
      have hfull := (refused_iff (.inl rfl)).1 hrefused
      simpa [step, enqueue_of_full _ _ hfull] using Moves.fullFront (ok.full_iff.1 hfull)
    | enqueueTail n =>
      have hfull := (refused_iff (.inr rfl)).1 hrefused
      simpa [step, enqueueTail_of_full _ _ hfull] using Moves.fullBack (ok.full_iff.1 hfull)
    | dequeue | dequeueTail | queueLen => exact absurd (fun n hn => by simp [Op.node] at hn) hop

/-- **The duty is exact.** In every script on elements that have their `node` at offset 0, from any
heap and for any capacity: the queue is the ring of a list of `cur` elements in every state it goes
through, if and only if every enqueue is refused by a full queue or passes an element that is not
linked; and then all replies are those of the bounded deque. -/
theorem keeps_queue_iff {m : Int32} {h₀ : Heap} {head : Addr} {ops : List Op} :
    ((∀ pre, pre <+: ops → IsQueue (after step (queueInit h₀ head m) pre)) ↔
        Allowed step (fun s op => op.Duty s) (queueInit h₀ head m) ops) ∧
      (Allowed step (fun s op => op.Duty s) (queueInit h₀ head m) ops →
        outputs step (queueInit h₀ head m) ops =
          outputs Deque.step (BoundedDeque.empty : Deque (capacity m)) ops) := by
  constructor
  · exact forall_prefix_iff_allowed (fun s op ⟨l, ok⟩ => ok.isQueue_iff) ⟨[], queueInit_ok ..⟩
  · intro hops
    refine (simulation (R := fun s (d : Deque (capacity m)) => s.ql.max = m ∧ QueueOk s d.items)
      ?_ ⟨rfl, queueInit_ok ..⟩ hops).1
    rintro s d op ⟨rfl, ok⟩ hduty
    obtain ⟨l', hmove, ok'⟩ := ok.moves_of_duty hduty
    obtain ⟨hr, hl⟩ := Deque.step_of_moves hmove rfl
    exact ⟨hr.symm, (step_head_max s op).2, hl ▸ ok'⟩

end Starrysky.Kqueue
