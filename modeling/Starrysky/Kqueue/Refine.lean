import Starrysky.Kqueue.Invariant
import Starrysky.Lib.BoundedDeque

/-!
# The queue is a bounded deque

`Deque.step` answers the calls of `kqueue.h` on an abstract bounded deque: `enqueue` pushes at the
front and `enqueue_tail` at the back, `dequeue` pops the front and `dequeue_tail` the back. A queue
that holds the items of a deque answers every call as the deque does and holds its items after it
(`step_refines`), so no script of calls tells them apart (`refines_deque`).
-/

namespace Starrysky.Kqueue

open Reactive

variable {cap : ℕ}

/-- The abstract queue: a bounded deque of elements. -/
abbrev Deque (cap : ℕ) := BoundedDeque Addr cap

namespace Deque

/-- The reply to a push that gave `r`, and the deque after it. -/
def pushed (d : Deque cap) (r : Option (Deque cap)) : Reply × Deque cap :=
  match r with
  | some d' => (.code 0, d')
  | none => (.code (-1), d)

/-- The reply to a pop that gave `r`, when the caller's variable held `n`, and the deque after it.
-/
def popped (d : Deque cap) (n : Addr) (r : Option (Addr × Deque cap)) : Reply × Deque cap :=
  match r with
  | some (a, d') => (.elem 0 a, d')
  | none => (.elem (-1) n, d)

/-- One call on the abstract queue. -/
def step (d : Deque cap) : Op → Reply × Deque cap
  | .enqueue n => d.pushed (d.pushFront n)
  | .enqueueTail n => d.pushed (d.pushBack n)
  | .dequeue n => d.popped n d.popFront
  | .dequeueTail n => d.popped n d.popBack
  | .queueLen => (.len d.items.length, d)

/-- The abstract queue makes every move a queue with its items can make. -/
theorem step_of_moves {d : Deque cap} {op : Op} {r : Reply} {l l' : List Addr}
    (hm : Moves cap l op r l') (hd : d.items = l) :
    (d.step op).1 = r ∧ (d.step op).2.items = l' := by
  cases hm with
  | pushFront h =>
    subst hd
    rw [step, BoundedDeque.pushFront_of_lt _ h]
    exact ⟨rfl, rfl⟩
  | pushBack h =>
    subst hd
    rw [step, BoundedDeque.pushBack_of_lt _ h]
    exact ⟨rfl, rfl⟩
  | popFront =>
    obtain ⟨d', h, hd'⟩ := BoundedDeque.popFront_of_cons hd
    rw [step, h]
    exact ⟨rfl, hd'⟩
  | popBack =>
    obtain ⟨d', h, hd'⟩ := BoundedDeque.popBack_of_concat hd
    rw [step, h]
    exact ⟨rfl, hd'⟩
  | fullFront h => rw [step, BoundedDeque.pushFront_of_le _ (hd ▸ h)]; exact ⟨rfl, hd⟩
  | fullBack h => rw [step, BoundedDeque.pushBack_of_le _ (hd ▸ h)]; exact ⟨rfl, hd⟩
  | emptyFront => rw [step, BoundedDeque.popFront_of_nil hd]; exact ⟨rfl, hd⟩
  | emptyBack => rw [step, BoundedDeque.popBack_of_nil hd]; exact ⟨rfl, hd⟩
  | len => exact ⟨by rw [step, hd], hd⟩

end Deque

/-- **Step simulation.** A queue that holds the items of a deque of its capacity answers a call as
the deque does, and holds the deque's items after it. -/
theorem step_refines {s : Queue} {m : Int32} {d : Deque (capacity m)} {op : Op}
    (hm : s.ql.max = m) (ok : QueueOk s d.items) (hop : op.Ok s) :
    (step s op).1 = (d.step op).1 ∧ (step s op).2.ql.max = m ∧
      QueueOk (step s op).2 (d.step op).2.items := by
  subst hm
  obtain ⟨l', hmove, ok'⟩ := step_moves ok hop
  obtain ⟨hr, hl⟩ := Deque.step_of_moves hmove rfl
  exact ⟨hr.symm, (step_head_max s op).2, hl ▸ ok'⟩

/-- A client may check its duty on the abstract queue: the element it passes is not the sentinel and
not an item. -/
theorem allowed_of_deque {m : Int32} {head : Addr} {ops : List Op} :
    ∀ {s : Queue} {d : Deque (capacity m)}, s.ql.max = m → s.ql.head = head → QueueOk s d.items →
      Allowed Deque.step (fun d op => op.node.all (fun n => n ∉ head :: d.items)) d ops →
      Allowed step (fun s op => op.Ok s) s ops := by
  induction ops with
  | nil => exact fun _ _ _ _ => trivial
  | cons op ops ih =>
    intro s d hm hh ok ⟨hop, hops⟩
    have hfree : ∀ n ∈ op.node, n ∉ head :: d.items := by simpa using hop
    have hok : op.Ok s := fun n hn => mt ok.linked_iff.1 (hh ▸ hfree n hn)
    obtain ⟨-, hm', ok'⟩ := step_refines hm ok hok
    exact ⟨hok, ih hm' ((step_head_max s op).1.trans hh) ok' hops⟩

/-- **The queue refines the bounded deque.** For every capacity and every script in which each
element passed to an enqueue is not in the list at that moment, the replies are those of the
abstract deque of capacity `max m 0`; and a call of the script that is refused leaves the counter
and every link as they were, and hands back the client's `n`. -/
theorem refines_deque {m : Int32} {h₀ : Heap} {head : Addr} {ops : List Op}
    (hops : Allowed step (fun s op => op.Ok s) (queueInit h₀ head m) ops) :
    outputs step (queueInit h₀ head m) ops =
        outputs Deque.step (BoundedDeque.empty : Deque (max m.toInt 0).toNat) ops ∧
      ∀ pre op post, ops = pre ++ op :: post →
        (step (after step (queueInit h₀ head m) pre) op).1.Refused →
        (step (after step (queueInit h₀ head m) pre) op).2 =
            after step (queueInit h₀ head m) pre ∧
          ∀ n, op = .dequeue n ∨ op = .dequeueTail n →
            (step (after step (queueInit h₀ head m) pre) op).1 = .elem (-1) n := by
  have hcap : (max m.toInt 0).toNat = capacity m := by rw [capacity]; omega
  rw [hcap]
  refine ⟨?_, fun pre op post _ hr => ⟨step_of_refused hr, fun n hn => elem_of_refused hr hn⟩⟩
  refine (simulation (R := fun s (d : Deque (capacity m)) => s.ql.max = m ∧ QueueOk s d.items)
    ?_ ⟨rfl, queueInit_ok ..⟩ hops).1
  intro s d op hR hop
  exact step_refines hR.1 hR.2 hop

theorem refines_deque_full_and_empty :
    outputs step (queueInit ⟨id, id⟩ 0x8000 1)
        [.enqueue 0x1000, .enqueueTail 0x2000, .dequeueTail 0, .dequeue 7] =
      [.code 0, .code (-1), .elem 0 0x1000, .elem (-1) 7] := by
  have hops : Allowed step (fun s op => op.Ok s) (queueInit ⟨id, id⟩ 0x8000 1)
      [.enqueue 0x1000, .enqueueTail 0x2000, .dequeueTail 0, .dequeue 7] :=
    allowed_of_deque (d := BoundedDeque.empty) rfl rfl (queueInit_ok ..) (by decide)
  exact (refines_deque hops).1.trans (by decide)

end Starrysky.Kqueue
