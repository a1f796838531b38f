import Starrysky.Kqueue.Offset

/-!
# The order in which elements come out

`enqueue` links an element in at the front of the list and `dequeue` takes the one at the front, so
that the plain pair is a stack: each dequeue hands out the latest of the elements that wait. It is
the queue that the names promise as long as no dequeue finds a second element waiting
(`lastInFirstOut`). All this is about elements that have their `node` at offset 0, as those of
`struct hellomsg` do; at another offset a dequeue does not hand out elements (`handsOutBases_iff`).
-/

namespace Starrysky.Kqueue

open Reactive

/-- The plain pair. -/
def Op.Plain : Op → Prop
  | .enqueue _ | .dequeue _ => True
  | .enqueueTail _ | .dequeueTail _ | .queueLen => False

/-- A script with the replies to its calls. -/
def history (s : Queue) (ops : List Op) : List (Op × Reply) := ops.zip (outputs step s ops)

/-- The element of a successful enqueue. -/
def enqueued : Op × Reply → Option Addr
  | (.enqueue n, .code ret) | (.enqueueTail n, .code ret) => if ret = 0 then some n else none
  | _ => none

/-- The element that a successful dequeue hands out. -/
def dequeued : Op × Reply → Option Addr
  | (_, .elem ret n) => if ret = 0 then some n else none
  | (_, .code _) | (_, .len _) => none

/-- First in, first out: the `k`-th successful dequeue hands out the element of the `k`-th
successful enqueue. -/
def FirstInFirstOut (hist : List (Op × Reply)) : Prop :=
  ∀ (k : ℕ) a, (hist.filterMap dequeued)[k]? = some a → (hist.filterMap enqueued)[k]? = some a

/-- The elements that wait after a call. -/
def await (w : List Addr) (x : Op × Reply) : List Addr :=
  match enqueued x, dequeued x with
  | some n, _ => n :: w
  | none, some a => w.erase a
  | none, none => w

/-- The elements that were enqueued and not handed out since, the latest first. -/
def waiting (hist : List (Op × Reply)) : List Addr := hist.foldl await []

/-- Last in, first out: each successful dequeue hands out the latest element that waits. -/
def LastInFirstOut (hist : List (Op × Reply)) : Prop :=
  ∀ pre x post a, hist = pre ++ x :: post → dequeued x = some a → (waiting pre).head? = some a

variable {s : Queue} {l l' : List Addr} {op : Op} {ops : List Op} {r : Reply} {cap : ℕ}
  {hist : List (Op × Reply)}

theorem history_cons :
    history s (op :: ops) = (op, (step s op).1) :: history (step s op).2 ops := rfl

/-- What a call of the plain pair can do: put an element before the others, take the first one, or
be refused. -/
theorem Moves.plain (h : Moves cap l op r l') (hop : op.Plain) :
    (∃ n, enqueued (op, r) = some n ∧ dequeued (op, r) = none ∧ l' = n :: l ∧ ¬ op.Pops) ∨
      (∃ a, enqueued (op, r) = none ∧ dequeued (op, r) = some a ∧ l = a :: l' ∧ op.Pops) ∨
      (enqueued (op, r) = none ∧ dequeued (op, r) = none ∧ l' = l ∧ (op.Pops → l = [])) := by
  cases h with
  | @pushFront _ n => exact .inl ⟨n, rfl, rfl, rfl, id⟩
  | @popFront _ _ a => exact .inr (.inl ⟨a, rfl, rfl, rfl, trivial⟩)
  | fullFront => exact .inr (.inr ⟨rfl, rfl, rfl, False.elim⟩)
  | emptyFront => exact .inr (.inr ⟨rfl, rfl, rfl, fun _ => rfl⟩)
  | pushBack | popBack | fullBack | emptyBack | len => exact hop.elim

/-- The elements that wait are those of the queue. -/
theorem await_of_moves (h : Moves cap l op r l') (hop : op.Plain) : await l (op, r) = l' := by
  rcases h.plain hop with ⟨n, hin, -, rfl, -⟩ | ⟨a, hin, hout, rfl, -⟩ | ⟨hin, hout, rfl, -⟩
  · simp [await, hin]
  · simp [await, hin, hout]
  · simp [await, hin, hout]

theorem firstInFirstOut_iff :
    FirstInFirstOut hist ↔ hist.filterMap dequeued <+: hist.filterMap enqueued := by
  rw [List.prefix_iff_getElem?]
  constructor
  · intro h k hk
    exact h k _ (List.getElem?_eq_getElem hk)
  · intro h k a ha
    obtain ⟨hk, rfl⟩ := List.getElem?_eq_some_iff.1 ha
    exact h k hk

/-- The macros' counter, compared with one element. -/
theorem QueueOk.cur_le_one_iff (ok : QueueOk s l) : s.ql.cur ≤ 1 ↔ l.length ≤ 1 := by
  rw [Int32.le_iff_toInt_le, ok.cur, Int32.toInt_one]
  omega

/-- **Run lemma** for the order: from a queue that holds `l`, the elements come out in the order in
which they went in, if and only if no dequeue finds a second one. -/
theorem dequeued_prefix_iff (ok : QueueOk s l) (hplain : ∀ op ∈ ops, op.Plain)
    (hops : Allowed step (fun s op => op.Ok s) s ops) :
    (history s ops).filterMap dequeued <+: l.reverse ++ (history s ops).filterMap enqueued ↔
      Allowed step (fun s op => op.Pops → s.ql.cur ≤ 1) s ops := by
  induction ops generalizing s l with
  | nil => simp [history]
  | cons op ops ih =>
    obtain ⟨hop, hops⟩ := hops
    obtain ⟨l', hmove, ok'⟩ := step_moves ok hop
    have ih := ih ok' (fun op h => hplain op (List.mem_cons_of_mem _ h)) hops
    rw [history_cons, allowed_cons, ← ih]
    rcases hmove.plain (hplain op List.mem_cons_self) with
      ⟨n, hin, hout, rfl, hpush⟩ | ⟨a, hin, hout, rfl, hpops⟩ | ⟨hin, hout, rfl, hempty⟩
    · simp [hin, hout, hpush]
    · rw [List.filterMap_cons_some hout, List.filterMap_cons_none hin, ok.cur_le_one_iff]
      cases l' with
      | nil => simp
      | cons b l' =>
        -- the oldest element waits behind `a`
        obtain ⟨c, w, hw⟩ := List.exists_cons_of_ne_nil (l := (b :: l').reverse) (by simp)
        have hc : c ∈ b :: l' := List.mem_reverse.1 (hw ▸ List.mem_cons_self)
        have hac : a ≠ c := fun h => (List.nodup_cons.1 ok.ring.nodup_nodes).1 (h ▸ hc)
        rw [List.reverse_cons, hw]
        simp [hac, hpops]
    · have hone : op.Pops → s.ql.cur ≤ 1 := fun h => by simp [ok.cur_le_one_iff, hempty h]
      rw [List.filterMap_cons_none hout, List.filterMap_cons_none hin, and_iff_right hone]

/-- **Run lemma** for the elements that wait. -/
theorem head_waiting {pre post : List (Op × Reply)} {x : Op × Reply} {a : Addr} (ok : QueueOk s l)
    (hplain : ∀ op ∈ ops, op.Plain) (hops : Allowed step (fun s op => op.Ok s) s ops)
    (hist : history s ops = pre ++ x :: post) (hx : dequeued x = some a) :
    (pre.foldl await l).head? = some a := by
  induction pre generalizing s l ops with
  | nil =>
    cases ops with
    | nil => cases hist
    | cons op ops =>
      obtain ⟨rfl, -⟩ := List.cons.inj hist
      obtain ⟨l', hmove, -⟩ := step_moves ok hops.1
      rcases hmove.plain (hplain op List.mem_cons_self) with
        ⟨n, -, hout, -⟩ | ⟨b, -, hout, rfl, -⟩ | ⟨-, hout, -⟩
      · cases hout.symm.trans hx
      · cases hout.symm.trans hx
        rfl
      · cases hout.symm.trans hx
  | cons y pre ih =>
    cases ops with
    | nil => cases hist
    | cons op ops =>
      obtain ⟨rfl, hrest⟩ := List.cons.inj hist
      obtain ⟨l', hmove, ok'⟩ := step_moves ok hops.1
      rw [List.foldl_cons, await_of_moves hmove (hplain op List.mem_cons_self)]
      exact ih ok' (fun op h => hplain op (List.mem_cons_of_mem _ h)) hops.2 hrest

/-- **The plain pair is a stack.** For elements that have their `node` at offset 0, every capacity
and every script of `enqueue` and `dequeue` in which each element passed to an enqueue is not in the
list at that moment: each successful dequeue hands out the latest of the elements that were enqueued
and not handed out since; and the elements come out in the order in which they went in if and only
if no dequeue is called on a queue of two or more elements. -/
theorem lastInFirstOut {m : Int32} {h₀ : Heap} {head : Addr} {ops : List Op}
    (hplain : ∀ op ∈ ops, op.Plain)
    (hops : Allowed step (fun s op => op.Ok s) (queueInit h₀ head m) ops) :
    LastInFirstOut (history (queueInit h₀ head m) ops) ∧
      (FirstInFirstOut (history (queueInit h₀ head m) ops) ↔
        Allowed step (fun s op => op.Pops → s.ql.cur ≤ 1) (queueInit h₀ head m) ops) := by
  have ok := queueInit_ok h₀ head m
  refine ⟨fun pre x post a hist hx => head_waiting ok hplain hops hist hx, ?_⟩
  rw [firstInFirstOut_iff]
  exact dequeued_prefix_iff ok hplain hops

theorem lastInFirstOut_two :
    LastInFirstOut (history (queueInit ⟨id, id⟩ 0x8000 2)
      [.enqueue 0x1000, .enqueue 0x2000, .dequeue 0, .dequeue 0]) := by
  have hops : Allowed step (fun s op => op.Ok s) (queueInit ⟨id, id⟩ 0x8000 2)
      [.enqueue 0x1000, .enqueue 0x2000, .dequeue 0, .dequeue 0] :=
    allowed_of_deque (d := BoundedDeque.empty) rfl rfl (queueInit_ok ..) (by decide)
  exact (lastInFirstOut (by simp [Op.Plain]) hops).1

/-- Of two elements the second comes out first. -/
theorem not_firstInFirstOut_two :
    ¬ FirstInFirstOut (history (queueInit ⟨id, id⟩ 0x8000 2)
      [.enqueue 0x1000, .enqueue 0x2000, .dequeue 0]) := by
  intro h
  have hfirst := h 0 0x2000 (by decide)
  exact absurd hfirst (by decide)

end Starrysky.Kqueue
