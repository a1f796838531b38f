import Starrysky.Miniature.Probe

/-!
# Clients of the miniature driver

The file operations and the timer callbacks on the memory of `Probe`, as `MiniDevice` has them for
one bound device, but at any moment of a probe and with any number of objects: the file operations
find their object by the driver data of `misc.this_device`, which may be none of the driver's, and
the callback of every timer acts on the object of the global `minidev`.
-/

namespace Starrysky.Miniature

open Press

/-- A thread in a file operation, with the `data` pointer that the operation has read. -/
structure Operation (F : Type) where
  file : F
  op : FileOp
  data : Option ℕ
  pc : OpPc
  deriving DecidableEq

/-- The memory, the open files and the threads in file operations. -/
structure Sys (D F T : Type) where
  mem : Memory D
  opened : Finset F
  ops : List (T × Operation F)

variable {D F T : Type}

/-- The module is loaded. -/
def Sys.init : Sys D F T := { mem := .init, opened := ∅, ops := [] }

variable [DecidableEq T] {s t : Sys D F T} {p : T} {i : Operation F} {x : T × Operation F}

/-- The file operation that a thread is in. -/
def Sys.op (s : Sys D F T) (p : T) : Option (Operation F) :=
  (s.ops.find? fun x => x.1 = p).map (·.2)

def Sys.endOp (s : Sys D F T) (p : T) : Sys D F T :=
  { s with ops := s.ops.filter fun x => x.1 ≠ p }

def Sys.setOp (s : Sys D F T) (p : T) (i : Operation F) : Sys D F T :=
  { s with ops := (p, i) :: (s.endOp p).ops }

theorem Sys.mem_ops_of_op (h : s.op p = some i) : (p, i) ∈ s.ops := by
  obtain ⟨⟨q, j⟩, hfind, rfl⟩ := Option.map_eq_some_iff.1 h
  obtain rfl : q = p := by simpa using List.find?_some hfind
  exact List.mem_of_find?_eq_some hfind

theorem Sys.mem_endOp (h : x ∈ (s.endOp p).ops) : x ∈ s.ops := List.mem_of_mem_filter h

theorem Sys.mem_setOp (h : x ∈ (s.setOp p i).ops) : x = (p, i) ∨ x ∈ s.ops :=
  (List.mem_cons.1 h).imp_right mem_endOp

variable [DecidableEq F] {u : Use F T}

/-- A step of a file operation or of a timer. -/
def Sys.use (s : Sys D F T) : Use F T → Option (Sys D F T)
  | .opens f =>
    if s.mem.registered = true ∧ f ∉ s.opened then
      some { s with
        mem := s.mem.write s.mem.drvdata fun x => { x with timer := x.timer.start }
        opened := insert f s.opened }
    else none
  | .release f =>
    if f ∈ s.opened ∧ ∀ x ∈ s.ops, x.2.file ≠ f then
      match s.mem.drvdata with
      | none => some { s with opened := s.opened.erase f }
      | some o => (s.mem.objs o).timer.cancel.map fun timer =>
        { s with
          mem := s.mem.write (some o) fun x => { x with timer }
          opened := s.opened.erase f }
    else none
  | .call p f op =>
    if f ∈ s.opened ∧ s.op p = none then some (s.setOp p ⟨f, op, s.mem.drvdata, .waiting⟩)
    else none
  | .pass p =>
    (s.op p).bind fun i =>
      if i.op = .read ∧ i.pc = .waiting ∧ ∀ o ∈ i.data, (s.mem.objs o).dev.Pressed then
        some (s.setOp p { i with pc := .passed })
      else none
  | .signal p =>
    (s.op p).bind fun i =>
      if i.op = .read ∧ i.pc = .waiting then some (s.setOp p { i with pc := .passed })
      else none
  | .copy p =>
    (s.op p).bind fun i =>
      if i.pc = .passed then some (s.setOp p { i with pc := .copied }) else none
  | .clear p =>
    (s.op p).bind fun i =>
      if i.pc = .copied then
        some (({ s with
          mem := s.mem.write i.data fun x => { x with dev := x.dev.clearPress } }).endOp p)
      else none
  | .returns p =>
    (s.op p).bind fun i => if i.op = .poll then some (s.endOp p) else none
  | .expire o =>
    (s.mem.objs o).timer.expire.map fun timer =>
      { s with mem := s.mem.write (some o) fun x => { x with timer } }
  | .callback o =>
    (s.mem.objs o).timer.restart.map fun timer =>
      let mem := s.mem.write s.mem.minidev fun x =>
        { x with dev := callback .miniatureDriver x.dev, wakeUps := x.wakeUps + 1 }
      { s with mem := mem.write (some o) fun x => { x with timer } }

/-- The pointer that a step of a file operation dereferences. -/
def Sys.dereferences (s : Sys D F T) : Use F T → Option (Option ℕ)
  | .opens _ | .release _ | .call .. => some s.mem.drvdata
  | .pass p | .signal p | .copy p | .clear p | .returns p => (s.op p).map (·.data)
  | .expire _ | .callback _ => none

/-! ## What a step writes -/

section Write

variable {m : Memory D} {ptr : Option ℕ} {f : Object → Object} {k : ℕ}

@[simp] theorem write_registered : (m.write ptr f).registered = m.registered := by
  cases ptr <;> rfl

@[simp] theorem write_drvdata : (m.write ptr f).drvdata = m.drvdata := by
  cases ptr <;> rfl

@[simp] theorem write_minidev : (m.write ptr f).minidev = m.minidev := by
  cases ptr <;> rfl

@[simp] theorem write_allocated : (m.write ptr f).allocated = m.allocated := by
  cases ptr <;> rfl

theorem write_objs :
    (m.write ptr f).objs k = if ptr = some k then f (m.objs k) else m.objs k := by
  cases ptr with
  | none => rfl
  | some o =>
    by_cases h : k = o
    · simp [Memory.write, h]
    · simp [Memory.write, h, Ne.symm h]

end Write

/-- What probes and removals have set stays as it is: the registration, the pointers to the objects
and the initialisation of the objects. -/
structure Kept (m m' : Memory D) : Prop where
  registered : m'.registered = m.registered
  drvdata : m'.drvdata = m.drvdata
  minidev : m'.minidev = m.minidev
  allocated : m'.allocated = m.allocated
  setup : ∀ k, (m'.objs k).setup = (m.objs k).setup

theorem Kept.refl (m : Memory D) : Kept m m :=
  ⟨rfl, rfl, rfl, rfl, fun _ => rfl⟩

theorem Kept.trans {m₁ m₂ m₃ : Memory D} (h : Kept m₁ m₂) (h' : Kept m₂ m₃) : Kept m₁ m₃ where
  registered := h'.registered.trans h.registered
  drvdata := h'.drvdata.trans h.drvdata
  minidev := h'.minidev.trans h.minidev
  allocated := h'.allocated.trans h.allocated
  setup k := (h'.setup k).trans (h.setup k)

/-- A write that leaves the initialisation of the object alone. -/
theorem Kept.write {m : Memory D} {ptr : Option ℕ} {f : Object → Object}
    (hf : ∀ x, (f x).setup = x.setup) : Kept m (m.write ptr f) where
  registered := write_registered
  drvdata := write_drvdata
  minidev := write_minidev
  allocated := write_allocated
  setup k := by
    rw [write_objs]
    split
    · exact hf _
    · rfl

/-- A write through the same pointer to two memories that agree in what probes set. -/
theorem Kept.write_write {ptr : Option ℕ} {f : Object → Object} (h : Kept m m')
    (hf : ∀ x y, y.setup = x.setup → (f y).setup = (f x).setup) :
    Kept (m.write ptr f) (m'.write ptr f) where
  registered := by simpa using h.registered
  drvdata := by simpa using h.drvdata
  minidev := by simpa using h.minidev
  allocated := by simpa using h.allocated
  setup k := by
    rw [write_objs, write_objs]
    split
    · exact hf _ _ (h.setup k)
    · exact h.setup k

/-- The steps of a client or a timer, with what enables them. -/
inductive Sys.Uses (s : Sys D F T) : Use F T → Sys D F T → Prop
  | opens {f : F} {m : Memory D} : s.mem.registered = true → f ∉ s.opened → Kept s.mem m →
    Uses s (.opens f) { s with mem := m, opened := insert f s.opened }
  | release {f : F} {m : Memory D} : f ∈ s.opened → (∀ x ∈ s.ops, x.2.file ≠ f) → Kept s.mem m →
    Uses s (.release f) { s with mem := m, opened := s.opened.erase f }
  | call {p : T} {f : F} {op : FileOp} : f ∈ s.opened →
    Uses s (.call p f op) (s.setOp p ⟨f, op, s.mem.drvdata, .waiting⟩)
  | pass {p : T} {i : Operation F} : s.op p = some i →
    Uses s (.pass p) (s.setOp p { i with pc := .passed })
  | signal {p : T} {i : Operation F} : s.op p = some i →
    Uses s (.signal p) (s.setOp p { i with pc := .passed })
  | copy {p : T} {i : Operation F} : s.op p = some i →
    Uses s (.copy p) (s.setOp p { i with pc := .copied })
  | clear {p : T} {i : Operation F} {m : Memory D} : s.op p = some i → Kept s.mem m →
    Uses s (.clear p) (({ s with mem := m } : Sys D F T).endOp p)
  | returns {p : T} {i : Operation F} : s.op p = some i → Uses s (.returns p) (s.endOp p)
  | expire {o : ℕ} {m : Memory D} : Kept s.mem m → Uses s (.expire o) { s with mem := m }
  | callback {o : ℕ} {m : Memory D} : Kept s.mem m → Uses s (.callback o) { s with mem := m }

theorem Sys.uses_of_use (h : s.use u = some t) : s.Uses u t := by
  cases u with
  | opens f =>
    obtain ⟨⟨hreg, hf⟩, ⟨⟩⟩ := Option.ite_none_right_eq_some.1 h
    exact .opens hreg hf (.write fun _ => rfl)
  | release f =>
    obtain ⟨⟨hf, hops⟩, h⟩ := Option.ite_none_right_eq_some.1 h
    split at h
    · cases h
      exact .release hf hops (.refl _)
    · obtain ⟨timer, -, ⟨⟩⟩ := Option.map_eq_some_iff.1 h
      exact .release hf hops (.write fun _ => rfl)
  | call p f op =>
    obtain ⟨⟨hf, -⟩, ⟨⟩⟩ := Option.ite_none_right_eq_some.1 h
    exact .call hf
  | pass p =>
    obtain ⟨i, hi, h⟩ := Option.bind_eq_some_iff.1 h
    obtain ⟨-, ⟨⟩⟩ := Option.ite_none_right_eq_some.1 h
    exact .pass hi
  | signal p =>
    obtain ⟨i, hi, h⟩ := Option.bind_eq_some_iff.1 h
    obtain ⟨-, ⟨⟩⟩ := Option.ite_none_right_eq_some.1 h
    exact .signal hi
  | copy p =>
    obtain ⟨i, hi, h⟩ := Option.bind_eq_some_iff.1 h
    obtain ⟨-, ⟨⟩⟩ := Option.ite_none_right_eq_some.1 h
    exact .copy hi
  | clear p =>
    obtain ⟨i, hi, h⟩ := Option.bind_eq_some_iff.1 h
    obtain ⟨-, ⟨⟩⟩ := Option.ite_none_right_eq_some.1 h
    exact .clear hi (.write fun _ => rfl)
  | returns p =>
    obtain ⟨i, hi, h⟩ := Option.bind_eq_some_iff.1 h
    obtain ⟨-, ⟨⟩⟩ := Option.ite_none_right_eq_some.1 h
    exact .returns hi
  | expire o =>
    obtain ⟨timer, -, ⟨⟩⟩ := Option.map_eq_some_iff.1 h
    exact .expire (.write fun _ => rfl)
  | callback o =>
    obtain ⟨timer, -, ⟨⟩⟩ := Option.map_eq_some_iff.1 h
    have hcallback : Kept s.mem (s.mem.write s.mem.minidev fun x =>
        { x with dev := Press.callback .miniatureDriver x.dev, wakeUps := x.wakeUps + 1 }) :=
      .write fun _ => rfl
    exact .callback (hcallback.trans (.write fun _ => rfl))

theorem Sys.Uses.kept (h : s.Uses u t) : Kept s.mem t.mem := by
  cases h with
  | opens _ _ hm | release _ _ hm | clear _ hm | expire hm | callback hm => exact hm
  | call | pass | signal | copy | returns => exact .refl _

end Starrysky.Miniature
