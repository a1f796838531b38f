import Starrysky.Kqueue.Invariant
import Starrysky.Lib.Transition
import Mathlib.Data.List.FinRange
import Mathlib.Data.List.OfFn

/-!
# The kqueue module's `hello_init` and `hello_exit`

The two functions of `kqueue_on_list_01/mdrv.c` as the statements they run on the module's memory.
The allocator is a parameter: `as i` is the address that the `i`-th `kzalloc` returns, any address
that is not allocated at that moment, and the object there comes zeroed, its links included.

`LifetimeOk` says that the module treats its objects soundly. It does not, under any allocator:
`hello_init` frees each object right after it linked it (`not_linkedAllocated`), so that the last
one is handed out and freed again by the first round of `hello_exit` (`hello_exit_double_free`).
-/

namespace Starrysky.Kqueue.Mdrv

open Transition

/-- The module's memory: the heap of links, the `id` member of every object, the queue `qlst`, the
local `info`, and which addresses are allocated. -/
structure Memory where
  heap : Heap
  id : Addr → Int32
  qlst : QueueList
  info : Addr
  allocated : Addr → Bool

/-- The queue `qlst` with the heap. -/
def Memory.queue (s : Memory) : Queue := ⟨s.heap, s.qlst⟩

/-- The statements of the two functions; `a` is the address `kzalloc` returns. -/
inductive Stmt where
  | queueInit
  | kzalloc (a : Addr)
  | setId (v : Int32)
  | enqueue
  | dequeue
  | kfree
  | infoNull
  deriving DecidableEq

/-- One statement. `kzalloc` succeeds at an address that is not `NULL` and not allocated; `kfree` of
`NULL` does nothing. -/
def step (s : Memory) : Stmt → Option Memory
  | .queueInit =>
    let q := Kqueue.queueInit s.heap s.qlst.head 10
    some { s with heap := q.heap, qlst := q.ql }
  | .kzalloc a =>
    if a ≠ 0 ∧ s.allocated a = false then
      some { s with
        heap := (s.heap.setNext a 0).setPrev a 0
        id := Function.update s.id a 0
        info := a
        allocated := Function.update s.allocated a true }
    else none
  | .setId v => some { s with id := Function.update s.id s.info v }
  | .enqueue =>
    let q := (Kqueue.enqueue hellomsgNode s.queue s.info).2
    some { s with heap := q.heap, qlst := q.ql }
  | .dequeue =>
    let r := Kqueue.dequeue hellomsgNode s.queue s.info
    some { s with heap := r.2.heap, qlst := r.2.ql, info := r.1.2 }
  | .kfree =>
    some { s with
      allocated := if s.info = 0 then s.allocated else Function.update s.allocated s.info false }
  | .infoNull => some { s with info := 0 }

/-- One round of the loop of `hello_init`. -/
def initRound (as : Fin 10 → Addr) (i : Fin 10) : List Stmt :=
  [.kzalloc (as i), .setId (Int32.ofNat (i + 10)), .enqueue, .kfree, .infoNull]

/-- `hello_init()`. -/
def helloInit (as : Fin 10 → Addr) : List Stmt :=
  .queueInit :: (List.finRange 10).flatMap (initRound as)

/-- One round of the loop of `hello_exit`. -/
def exitRound : List Stmt := [.dequeue, .kfree, .infoNull]

/-- `hello_exit()`. -/
def helloExit : List Stmt := (List.replicate 10 exitRound).flatten

/-- The elements that the `dequeue`s of a list of statements hand out. -/
def dequeued : Memory → List Stmt → List Addr
  | _, [] => []
  | s, c :: cs =>
    match step s c with
    | none => []
    | some t => if c = .dequeue then t.info :: dequeued t cs else dequeued t cs

/-- From `queue_init` on, every element linked in `qlst` is allocated between any two statements. -/
def LinkedAllocated (s₀ : Memory) (as : Fin 10 → Addr) : Prop :=
  ∀ pre post s, helloInit as ++ helloExit = .queueInit :: pre ++ post →
    exec step s₀ (.queueInit :: pre) = some s →
    ∀ a, a ≠ s.qlst.head → s.heap.Linked s.qlst.head a → s.allocated a = true

/-- Every `kfree` is of an address that is allocated at that moment. -/
def NoDoubleFree (s₀ : Memory) (as : Fin 10 → Addr) : Prop :=
  ∀ pre post s, helloInit as ++ helloExit = pre ++ .kfree :: post → exec step s₀ pre = some s →
    s.allocated s.info = true

/-- Loading and unloading the module is sound for the allocator's choices `as`: what is linked is
allocated, what `hello_exit` dequeues is what `hello_init` allocated, and nothing is freed twice. -/
structure LifetimeOk (s₀ : Memory) (as : Fin 10 → Addr) : Prop where
  linked : LinkedAllocated s₀ as
  handed : (dequeued s₀ (helloInit as ++ helloExit)).Perm (List.ofFn as)
  freed : NoDoubleFree s₀ as

variable {s s₀ t : Memory} {as : Fin 10 → Addr} {i : Fin 10}

/-! ## One round of `hello_init` -/

/-- A successful `kzalloc` was given an address that was not allocated. -/
theorem kzalloc_free {a : Addr} (h : step s (.kzalloc a) = some t) :
    a ≠ 0 ∧ s.allocated a = false :=
  (Option.ite_none_right_eq_some.1 h).1

/-- The first four statements of a round link the new object at the front of `qlst`, which is not
full, and free it. -/
theorem initRound_spec (hcur : ¬ s.qlst.max ≤ s.qlst.cur)
    (h : exec step s [.kzalloc (as i), .setId (Int32.ofNat (i + 10)), .enqueue, .kfree] = some t) :
    s.allocated (as i) = false ∧ t.allocated = s.allocated ∧ t.heap.next s.qlst.head = as i ∧
      t.qlst = { s.qlst with cur := s.qlst.cur + 1 } := by
  have hroom : ∀ h n, Kqueue.enqueue hellomsgNode ⟨h, s.qlst⟩ n = (0, _) :=
    fun h n => enqueue_of_room (s := ⟨h, s.qlst⟩) hellomsgNode n hcur
  rw [exec_cons, Option.bind_eq_some_iff] at h
  obtain ⟨u, hu, h⟩ := h
  obtain ⟨hne, hfree⟩ := kzalloc_free hu
  rw [step, if_pos ⟨hne, hfree⟩] at hu
  cases hu
  simp only [exec_cons, step, Memory.queue, Option.bind_some, exec_nil, Option.some.injEq,
    hroom, add_hellomsgNode, if_neg hne] at h
  subst h
  refine ⟨hfree, ?_, ?_, rfl⟩
  · simp [← hfree]
  · simp [listAdd_next]

/-- The loop of `hello_init`, while `qlst` has room for its rounds: every object has been freed
again, the last one is at the front, and the counter has counted the rounds. -/
theorem initLoop_spec {is : List (Fin 10)} (hroom : s.qlst.cur.toInt + is.length ≤ s.qlst.max.toInt)
    (h : exec step s (is.flatMap (initRound as)) = some t) :
    t.allocated = s.allocated ∧ t.qlst.head = s.qlst.head ∧ t.qlst.max = s.qlst.max ∧
      t.qlst.cur.toInt = s.qlst.cur.toInt + is.length ∧
      ∀ i ∈ is.getLast?, s.allocated (as i) = false ∧ t.heap.next t.qlst.head = as i := by
  induction is using List.reverseRecOn generalizing t with
  | nil => cases h; simp
  | append_singleton is i ih =>
    simp only [List.length_append, List.length_singleton, Nat.cast_add, Nat.cast_one] at hroom
    rw [List.flatMap_append, List.flatMap_singleton] at h
    obtain ⟨u, hu, h⟩ := exec_split h
    obtain ⟨halloc, hhead, hmax, hcur, -⟩ := ih (by omega) hu
    have hlt : u.qlst.cur < u.qlst.max := by
      rw [Int32.lt_iff_toInt_lt, hcur, hmax]
      omega
    -- the last statement of a round only forgets `info`
    have h : exec step u ([.kzalloc (as i), .setId (Int32.ofNat (i + 10)), .enqueue, .kfree] ++
        [.infoNull]) = some t := h
    obtain ⟨v, hv, hend⟩ := exec_concat.1 h
    obtain ⟨hfree, halloc', hnext, hq⟩ := initRound_spec (Int32.not_le.2 hlt) hv
    cases hend
    rw [halloc] at hfree halloc'
    refine ⟨halloc', by rw [hq]; exact hhead, by rw [hq]; exact hmax, ?_, ?_⟩
    · rw [hq]
      simp only [toInt_add_one hlt, hcur, List.length_append, List.length_singleton]
      omega
    · intro j hj
      obtain rfl : i = j := by simpa using hj
      exact ⟨hfree, by rw [hq]; exact hnext⟩

/-! ## The two defects -/

/-- `hello_init` begins with `queue_init` and its first round. -/
theorem helloInit_eq : helloInit as =
    .queueInit :: (initRound as 0 ++ ((List.finRange 9).map Fin.succ).flatMap (initRound as)) := by
  rw [helloInit, List.finRange_succ, List.flatMap_cons]

/-- `hello_exit` begins with its first round. -/
theorem helloExit_eq : helloExit = exitRound ++ (List.replicate 9 exitRound).flatten := by
  rw [helloExit, List.replicate_succ, List.flatten_cons]

/-- After the first round of `hello_init` its object is linked and free, whatever address the
allocator chose. -/
theorem not_linkedAllocated (h : exec step s₀ (helloInit as ++ helloExit) = some t)
    (hqlst : s₀.allocated s₀.qlst.head = true) : ¬ LinkedAllocated s₀ as := by
  intro hok
  obtain ⟨rest, hcut⟩ : ∃ rest, helloInit as ++ helloExit = .queueInit ::
      [.kzalloc (as 0), .setId (Int32.ofNat ((0 : Fin 10) + 10)), .enqueue, .kfree] ++ rest := by
    rw [helloInit_eq, initRound]
    exact ⟨.infoNull :: (((List.finRange 9).map Fin.succ).flatMap (initRound as) ++ helloExit), by
      simp only [List.cons_append, List.nil_append]⟩
  rw [hcut] at h
  obtain ⟨s, hs, -⟩ := exec_split h
  have hs' := hs
  rw [exec_cons, step, Option.bind_some] at hs'
  obtain ⟨hfree, halloc, hnext, hq⟩ := initRound_spec (by simp [queueInit]) hs'
  have hlinked : s.heap.Linked s.qlst.head (as 0) := ⟨1, by rw [hq]; exact hnext⟩
  have hne : as 0 ≠ s.qlst.head := by
    intro e
    rw [hq] at e
    rw [e] at hfree
    exact absurd (hfree.symm.trans hqlst) (by decide)
  have := hok _ _ s hcut hs (as 0) hne hlinked
  rw [halloc, hfree] at this
  cases this

/-- **The first `kfree` of `hello_exit` is a double free**, under every allocator: it is handed the
object of the last round of `hello_init`, which that round freed. -/
theorem hello_exit_double_free (h : exec step s₀ (helloInit as ++ helloExit) = some t) :
    ¬ NoDoubleFree s₀ as := by
  intro hok
  obtain ⟨rest, hcut⟩ : ∃ rest, helloInit as ++ helloExit =
      (helloInit as ++ [.dequeue]) ++ .kfree :: rest := by
    rw [helloExit_eq, exitRound]
    exact ⟨.infoNull :: (List.replicate 9 exitRound).flatten, by
      simp only [exitRound, List.append_assoc, List.cons_append, List.nil_append]⟩
  rw [hcut] at h
  obtain ⟨u, hu, -⟩ := exec_split h
  obtain ⟨v, hv, hdeq⟩ := exec_concat.1 hu
  rw [helloInit, exec_cons, step, Option.bind_some] at hv
  obtain ⟨halloc, -, -, hcur, hlast⟩ := initLoop_spec (by simp [queueInit]) hv
  obtain ⟨hfree, hnext⟩ := hlast 9 (by decide)
  have hpos : ¬ v.qlst.cur ≤ 0 := by
    rw [Int32.le_iff_toInt_le, hcur]
    simp [queueInit]
  have hdeq' := dequeue_of_some (s := v.queue) hellomsgNode v.info hpos
  rw [step, hdeq'] at hdeq
  cases hdeq
  have := hok _ _ _ hcut hu
  simp only [containerOf_hellomsgNode, Memory.queue, hnext, halloc] at this
  exact absurd (hfree.symm.trans this) (by decide)

/-- **The module never treats its objects soundly**, whatever addresses the allocator returns. -/
theorem never_lifetimeOk (hqlst : s₀.allocated s₀.qlst.head = true)
    (h : exec step s₀ (helloInit as ++ helloExit) = some t) : ¬ LifetimeOk s₀ as :=
  fun hok => not_linkedAllocated h hqlst hok.linked

/-- The memory at load time: `qlst` is a static object, all zero. -/
def bss : Memory :=
  { heap := ⟨fun _ => 0, fun _ => 0⟩, id := fun _ => 0, qlst := ⟨0x8000, 0, 0⟩, info := 0
    allocated := fun a => a == 0x8000 }

theorem never_lifetimeOk_reuse : ¬ LifetimeOk bss fun _ => 0x1000 := by
  obtain ⟨t, ht⟩ : ∃ t, exec step bss (helloInit (fun _ => 0x1000) ++ helloExit) = some t :=
    Option.isSome_iff_exists.1 (by decide +kernel)
  exact never_lifetimeOk (by decide) ht

/-- Ten objects side by side. -/
def sideBySide (i : Fin 10) : Addr := 0x1000 + 0x40 * i.val.toUInt64

/-- When the allocator returns ten different addresses, the first object is linked and free after
the first round. -/
theorem lifetime_sideBySide : ¬ LifetimeOk bss sideBySide := by
  intro hok
  let pre : List Stmt := (initRound sideBySide 0).take 4
  have hcut : helloInit sideBySide ++ helloExit =
      .queueInit :: pre ++ (helloInit sideBySide ++ helloExit).drop 5 := by decide +kernel
  have hrun : (exec step bss (.queueInit :: pre)).map
      (fun s => (s.allocated 0x1000, s.heap.next s.qlst.head, s.qlst.head)) =
        some (false, 0x1000, 0x8000) := by decide +kernel
  obtain ⟨s, hs, heq⟩ := Option.map_eq_some_iff.1 hrun
  obtain ⟨halloc, hnext, hhead⟩ : s.allocated 0x1000 = false ∧
      s.heap.next s.qlst.head = 0x1000 ∧ s.qlst.head = 0x8000 := by simpa using heq
  have := hok.linked pre _ s hcut hs 0x1000 (by rw [hhead]; decide) ⟨1, hnext⟩
  rw [halloc] at this
  cases this

end Starrysky.Kqueue.Mdrv
