import Starrysky.Kqueue.ListHead
import Starrysky.Lib.Reactive

/-!
# The queue of `kqueue.h`

The macros of `kqueue.h` as functions on the heap and the `struct queuelist`. An element is known by
its base address `n`, and `off` is the offset of its member `node` (`offsetof(typeof(*n), node)`):
the macros link `&n->node`, and a dequeue computes the base from the link address. `Op` are the
calls of a client; `step` answers them for elements laid out as `struct hellomsg`, with `node` at
offset 0, and `stepAt` for any offset, where the links move as elements at offset 0 do
(`stepAt_eq`).
-/

namespace Starrysky.Kqueue

open Reactive

/-- `struct queuelist`. Its member `head` is embedded, so the queue knows it by its address. -/
structure QueueList where
  head : Addr
  max : Int32
  cur : Int32

/-- A queue and the heap its links live in. -/
structure Queue where
  heap : Heap
  ql : QueueList

/-- `sizeof(struct list_head)`, by which `__qh_next - …` scales what it subtracts. -/
def sizeofListHead : Addr := 16

/-- `(typeof(n))(link - (size_t) & (((typeof(n))0)->node))`: the subtraction is one of
`struct list_head` pointers. -/
def containerOf (off link : Addr) : Addr := link - off * sizeofListHead

/-- `queue_init(ql, m)`. -/
def queueInit (h : Heap) (head : Addr) (m : Int32) : Queue :=
  { heap := initListHead h head, ql := { head := head, max := m, cur := 0 } }

/-- `queue_len(ql)`. -/
def queueLen (s : Queue) : Int32 := s.ql.cur

/-- `enqueue(q, n)`. -/
def enqueue (off : Addr) (s : Queue) (n : Addr) : Int32 × Queue :=
  if s.ql.max ≤ s.ql.cur then (-1, s)
  else (0, { heap := listAdd s.heap (n + off) s.ql.head
             ql := { s.ql with cur := s.ql.cur + 1 } })

/-- `enqueue_tail(q, n)`. -/
def enqueueTail (off : Addr) (s : Queue) (n : Addr) : Int32 × Queue :=
  if s.ql.max ≤ s.ql.cur then (-1, s)
  else (0, { heap := listAddTail s.heap (n + off) s.ql.head
             ql := { s.ql with cur := s.ql.cur + 1 } })

/-- `dequeue(q, n)`; it gives the return code and the caller's `n` after it. -/
def dequeue (off : Addr) (s : Queue) (n : Addr) : (Int32 × Addr) × Queue :=
  if s.ql.cur ≤ 0 then ((-1, n), s)
  else
    let qhNext := s.heap.next s.ql.head
    ((0, containerOf off qhNext), { heap := listDel s.heap qhNext
                                    ql := { s.ql with cur := s.ql.cur - 1 } })

/-- `dequeue_tail(q, n)`; it gives the return code and the caller's `n` after it. -/
def dequeueTail (off : Addr) (s : Queue) (n : Addr) : (Int32 × Addr) × Queue :=
  if s.ql.cur ≤ 0 then ((-1, n), s)
  else
    let qhPrev := s.heap.prev s.ql.head
    ((0, containerOf off qhPrev), { heap := listDel s.heap qhPrev
                                    ql := { s.ql with cur := s.ql.cur - 1 } })

/-- `offsetof(struct hellomsg, node)`. -/
def hellomsgNode : Addr := 0

/-- A call of a client. A dequeue comes with what the client's variable `n` held before it. -/
inductive Op where
  | enqueue (n : Addr)
  | enqueueTail (n : Addr)
  | dequeue (n : Addr)
  | dequeueTail (n : Addr)
  | queueLen
  deriving DecidableEq

/-- What a call gives back: a return code, a return code with the client's `n` after the call, or a
length. -/
inductive Reply where
  | code (ret : Int32)
  | elem (ret : Int32) (n : Addr)
  | len (cur : Int)
  deriving DecidableEq

/-- One call on a queue of `struct hellomsg` elements. -/
def step (s : Queue) : Op → Reply × Queue
  | .enqueue n => (.code (enqueue hellomsgNode s n).1, (enqueue hellomsgNode s n).2)
  | .enqueueTail n => (.code (enqueueTail hellomsgNode s n).1, (enqueueTail hellomsgNode s n).2)
  | .dequeue n =>
    (.elem (dequeue hellomsgNode s n).1.1 (dequeue hellomsgNode s n).1.2,
      (dequeue hellomsgNode s n).2)
  | .dequeueTail n =>
    (.elem (dequeueTail hellomsgNode s n).1.1 (dequeueTail hellomsgNode s n).1.2,
      (dequeueTail hellomsgNode s n).2)
  | .queueLen => (.len (queueLen s).toInt, s)

/-- One call on a queue of elements whose member `node` is at the offset `off`. -/
def stepAt (off : Addr) (s : Queue) : Op → Reply × Queue
  | .enqueue n => (.code (enqueue off s n).1, (enqueue off s n).2)
  | .enqueueTail n => (.code (enqueueTail off s n).1, (enqueueTail off s n).2)
  | .dequeue n => (.elem (dequeue off s n).1.1 (dequeue off s n).1.2, (dequeue off s n).2)
  | .dequeueTail n =>
    (.elem (dequeueTail off s n).1.1 (dequeueTail off s n).1.2, (dequeueTail off s n).2)
  | .queueLen => (.len (queueLen s).toInt, s)

/-- The element a call asks to link. -/
def Op.node : Op → List Addr
  | .enqueue n | .enqueueTail n => [n]
  | .dequeue _ | .dequeueTail _ | .queueLen => []

/-- A client's duty: the element it passes is not in the list at that moment (nor the sentinel). -/
def Op.Ok (s : Queue) (op : Op) : Prop := ∀ n ∈ op.node, ¬ s.heap.Linked s.ql.head n

/-- The same duty, for elements whose member `node` is at the offset `off`. -/
def Op.OkAt (off : Addr) (s : Queue) (op : Op) : Prop :=
  ∀ n ∈ op.node, ¬ s.heap.Linked s.ql.head (n + off)

/-- The call with the link of the element it passes in place of the element. -/
def Op.map (f : Addr → Addr) : Op → Op
  | .enqueue n => .enqueue (f n)
  | .enqueueTail n => .enqueueTail (f n)
  | .dequeue n => .dequeue n
  | .dequeueTail n => .dequeueTail n
  | .queueLen => .queueLen

/-- The reply with another address in place of the element it hands out. -/
def Reply.map (f : Addr → Addr) : Reply → Reply
  | .code ret => .code ret
  | .elem ret n => .elem ret (if ret = 0 then f n else n)
  | .len cur => .len cur

/-- The return code of the reply says that the call was refused. -/
def Reply.Refused : Reply → Prop
  | .code ret | .elem ret _ => ret = -1
  | .len _ => False

@[simp] theorem add_hellomsgNode (n : Addr) : n + hellomsgNode = n := UInt64.add_zero n
@[simp] theorem containerOf_hellomsgNode (a : Addr) : containerOf hellomsgNode a = a := by
  simp [containerOf, hellomsgNode]

/-! ## Elements whose `node` is not their first member -/

variable {off : Addr} {s : Queue} {op : Op} {ops : List Op}

/-- The links of elements move as elements at offset 0 do. -/
theorem stepAt_eq : stepAt off s op =
    ((step s (op.map (· + off))).1.map (containerOf off), (step s (op.map (· + off))).2) := by
  cases op with
  | enqueue n => simp [stepAt, step, Op.map, Reply.map, enqueue]
  | enqueueTail n => simp [stepAt, step, Op.map, Reply.map, enqueueTail]
  | dequeue n => by_cases h : s.ql.cur ≤ 0 <;> simp [stepAt, step, Op.map, Reply.map, dequeue, h]
  | dequeueTail n =>
    by_cases h : s.ql.cur ≤ 0 <;> simp [stepAt, step, Op.map, Reply.map, dequeueTail, h]
  | queueLen => rfl

/-- At offset 0 these are the calls on a queue of `struct hellomsg`. -/
theorem stepAt_hellomsgNode : stepAt hellomsgNode = step := rfl

@[simp] theorem Op.node_map {f : Addr → Addr} : (op.map f).node = op.node.map f := by
  cases op <;> rfl

/-- The duty is one about the links. -/
theorem Op.okAt_iff : op.OkAt off s ↔ (op.map (· + off)).Ok s := by
  simp [Op.OkAt, Op.Ok, Op.node_map]

/-- A run at any offset is a run of the links at offset 0. -/
theorem run_stepAt (off : Addr) (s : Queue) (ops : List Op) : outputs (stepAt off) s ops =
      (outputs step s (ops.map (Op.map (· + off)))).map (Reply.map (containerOf off)) ∧
    after (stepAt off) s ops = after step s (ops.map (Op.map (· + off))) :=
  outputs_after_rename (f := stepAt off) (g := step) (Op.map (· + off))
    (Reply.map (containerOf off)) (fun _ _ => stepAt_eq) s ops

/-- A client keeps to the duty at any offset as a client that passes the links does. -/
theorem allowed_stepAt : Allowed (stepAt off) (fun s op => op.OkAt off s) s ops ↔
    Allowed step (fun s op => op.Ok s) s (ops.map (Op.map (· + off))) := by
  refine allowed_rename (Op.map (· + off)) (fun s op => ?_) (fun s op => ?_)
  · rw [stepAt_eq]
  · exact Op.okAt_iff

end Starrysky.Kqueue
