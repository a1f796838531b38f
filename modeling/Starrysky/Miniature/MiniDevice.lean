import Starrysky.Press.Device
import Starrysky.Lib.Hrtimer
import Starrysky.Lib.Transition
import Mathlib.Data.Finset.Erase
import Mathlib.Data.Finset.Insert
import Mathlib.Logic.Function.Basic

/-!
# The miniature driver

`miniature_driver` keeps the bytes of the device and its timer in a `mini_device` that `hello_probe`
allocates for the platform device, and finds it again in three ways: the timer callback by the
global `minidev`, the file operations by the driver data of `misc.this_device`, and `hello_remove`
by the driver data of the platform device. The machine has one platform device, which can be bound,
removed and bound again, any number of files, and any number of threads in file operations. The
objects are numbered by the probes that allocated them. A probe is one step here.
-/

namespace Starrysky.Miniature

open Press

/-- `struct mini_device`, less the wait queue. -/
structure MiniDevice where
  dev : Device
  timer : Hrtimer
  deriving DecidableEq

/-- The file operations that wait. -/
inductive FileOp where
  | read
  | poll
  deriving DecidableEq

/-- Where a thread stands in a file operation. -/
inductive OpPc where
  | waiting
  | passed
  | copied
  deriving DecidableEq

/-- A thread in a file operation: the file, and the `data` that the operation has read from the
driver data of `misc.this_device`. -/
structure InFlight (F : Type) where
  file : F
  op : FileOp
  data : ℕ
  pc : OpPc
  deriving DecidableEq

/-- The platform device: not bound, bound to an object, or removed with the object's memory not yet
freed. -/
inductive Binding where
  | unbound
  | bound (o : ℕ)
  | removed (o : ℕ)
  deriving DecidableEq

def Binding.object : Binding → Option ℕ
  | .unbound => none
  | .bound o | .removed o => some o

/-- The driver, its objects, its open files, and the threads in its file operations. `drvdata` is
the driver data of `misc.this_device`, which outlives the registration of `misc`. -/
structure State (F T : Type) where
  mini : ℕ → MiniDevice
  probes : ℕ
  freed : Finset ℕ
  minidev : Option ℕ
  drvdata : Option ℕ
  binding : Binding
  registered : Bool
  opened : Finset F
  ops : List (T × InFlight F)

variable {F T : Type}

/-- The module is loaded and no device is bound yet. -/
def State.init : State F T :=
  { mini := fun _ => ⟨Device.init .miniatureDriver, .init⟩
    probes := 0
    freed := ∅
    minidev := none
    drvdata := none
    binding := .unbound
    registered := false
    opened := ∅
    ops := [] }

/-- `hello_probe`: `misc` is registered, and the new object becomes the driver data of both devices
and the global `minidev`. -/
def State.helloProbe (s : State F T) : State F T :=
  { s with
    mini := Function.update s.mini s.probes ⟨Device.init .miniatureDriver, .init⟩
    probes := s.probes + 1
    minidev := some s.probes
    drvdata := some s.probes
    binding := .bound s.probes
    registered := true }

/-- The device is bound for the first time. -/
def State.bound : State F T := State.init.helloProbe

/-- What happens to a device besides its binding and removal. -/
inductive Use (F T : Type) where
  /-- `dmisc_open` -/
  | opens (f : F)
  /-- `dmisc_release` -/
  | release (f : F)
  /-- `dmisc_read` or `event_poll` begins -/
  | call (p : T) (f : F) (op : FileOp)
  /-- the wait of `dmisc_read` ends, with the flag up or by a signal -/
  | pass (p : T)
  | signal (p : T)
  | copy (p : T)
  | clear (p : T)
  /-- `poll` returns, and leaves the wait queue -/
  | returns (p : T)
  /-- the timer of an object expires, and its callback returns -/
  | expire (o : ℕ)
  | callback (o : ℕ)
  deriving DecidableEq

inductive Act (F T : Type) where
  | use (u : Use F T)
  | probe
  /-- `hello_remove` -/
  | remove
  /-- the driver core frees what `devm_kzalloc` allocated for the device -/
  | devmFree
  deriving DecidableEq

def State.setTimer (s : State F T) (o : ℕ) (timer : Hrtimer) : State F T :=
  { s with mini := Function.update s.mini o { s.mini o with timer } }

def State.setDev (s : State F T) (o : ℕ) (dev : Device) : State F T :=
  { s with mini := Function.update s.mini o { s.mini o with dev } }

variable {s t : State F T} {u : Use F T} {p : T} {i : InFlight F} {o k : ℕ} {timer : Hrtimer}
  {dev : Device} {x : T × InFlight F}

theorem setTimer_timer : ((s.setTimer o timer).mini k).timer =
    if k = o then timer else (s.mini k).timer := by
  by_cases h : k = o
  · simp [State.setTimer, h]
  · simp [State.setTimer, h]

/-- A timer that is active after one was set is that one, or was active before. -/
theorem active_setTimer : ((s.setTimer o timer).mini k).timer.Active ↔
    k = o ∧ timer.Active ∨ k ≠ o ∧ (s.mini k).timer.Active := by
  by_cases h : k = o <;> simp [setTimer_timer, h]

@[simp] theorem setDev_drvdata : (s.setDev o dev).drvdata = s.drvdata := rfl

@[simp] theorem setDev_opened : (s.setDev o dev).opened = s.opened := rfl

@[simp] theorem setDev_timer : ((s.setDev o dev).mini k).timer = (s.mini k).timer := by
  by_cases h : k = o
  · simp [State.setDev, h]
  · simp [State.setDev, h]

variable [DecidableEq T]

/-- The file operation that a thread is in. -/
def State.op (s : State F T) (p : T) : Option (InFlight F) :=
  (s.ops.find? fun x => x.1 = p).map (·.2)

/-- The thread has left its file operation. -/
def State.endOp (s : State F T) (p : T) : State F T :=
  { s with ops := s.ops.filter fun x => x.1 ≠ p }

def State.setOp (s : State F T) (p : T) (i : InFlight F) : State F T :=
  { s with ops := (p, i) :: (s.endOp p).ops }

@[simp] theorem endOp_mini : (s.endOp p).mini = s.mini := rfl

@[simp] theorem endOp_drvdata : (s.endOp p).drvdata = s.drvdata := rfl

@[simp] theorem endOp_opened : (s.endOp p).opened = s.opened := rfl

theorem mem_ops_of_op (h : s.op p = some i) : (p, i) ∈ s.ops := by
  obtain ⟨⟨q, j⟩, hfind, rfl⟩ := Option.map_eq_some_iff.1 h
  obtain rfl : q = p := by simpa using List.find?_some hfind
  exact List.mem_of_find?_eq_some hfind

theorem mem_endOp (h : x ∈ (s.endOp p).ops) : x ∈ s.ops := List.mem_of_mem_filter h

theorem mem_setOp (h : x ∈ (s.setOp p i).ops) : x = (p, i) ∨ x ∈ s.ops :=
  (List.mem_cons.1 h).imp_right mem_endOp

variable [DecidableEq F]

/-- A step of a bound device. `misc` opens only while it is registered, and a file is released when
no operation on it is under way. -/
def useStep (s : State F T) : Use F T → Option (State F T)
  | .opens f =>
    if s.registered = true ∧ f ∉ s.opened then
      s.drvdata.map fun o =>
        { s.setTimer o (s.mini o).timer.start with opened := insert f s.opened }
    else none
  | .release f =>
    if f ∈ s.opened ∧ ∀ x ∈ s.ops, x.2.file ≠ f then
      s.drvdata.bind fun o => (s.mini o).timer.cancel.map fun timer =>
        { s.setTimer o timer with opened := s.opened.erase f }
    else none
  | .call p f op =>
    if f ∈ s.opened ∧ s.op p = none then
      s.drvdata.map fun data => s.setOp p ⟨f, op, data, .waiting⟩
    else none
  | .pass p =>
    (s.op p).bind fun i =>
      if i.op = .read ∧ i.pc = .waiting ∧ (s.mini i.data).dev.Pressed then
        some (s.setOp p { i with pc := .passed })
      else none
  | .signal p =>
    (s.op p).bind fun i =>
      if i.op = .read ∧ i.pc = .waiting then some (s.setOp p { i with pc := .passed })
      else none
  | .copy p =>
    (s.op p).bind fun i =>
      if i.pc = .passed then some (s.setOp p { i with pc := .copied }) else none
  | .clear p =>
    (s.op p).bind fun i =>
      if i.pc = .copied then
        some ((s.setDev i.data (s.mini i.data).dev.clearPress).endOp p)
      else none
  | .returns p =>
    (s.op p).bind fun i => if i.op = .poll then some (s.endOp p) else none
  | .expire o => (s.mini o).timer.expire.map fun timer => s.setTimer o timer
  | .callback o =>
    (s.mini o).timer.restart.bind fun timer => s.minidev.map fun m =>
      (s.setDev m (Press.callback .miniatureDriver (s.mini m).dev)).setTimer o timer

/-- A step of the system. -/
def step (s : State F T) : Act F T → Option (State F T)
  | .use u => useStep s u
  | .probe => if s.binding = .unbound then some s.helloProbe else none
  | .remove =>
    match s.binding with
    | .bound o => some { s with binding := .removed o, registered := false }
    | _ => none
  | .devmFree =>
    match s.binding with
    | .removed o => some { s with binding := .unbound, freed := insert o s.freed }
    | _ => none

/-- The object that a step of a file operation dereferences. -/
def dereferences (s : State F T) : Act F T → Option ℕ
  | .use (.opens _) | .use (.release _) | .use (.call ..) => s.drvdata
  | .use (.pass p) | .use (.signal p) | .use (.copy p) | .use (.clear p) | .use (.returns p) =>
    (s.op p).map (·.data)
  | .use (.expire _) | .use (.callback _) | .probe | .remove | .devmFree => none

/-! ## What a step can do -/

/-- The steps of a bound device, with what enables them. -/
inductive Uses (s : State F T) : Use F T → State F T → Prop
  | opens {f : F} {o : ℕ} : s.registered = true → f ∉ s.opened → s.drvdata = some o →
    Uses s (.opens f) { s.setTimer o (s.mini o).timer.start with opened := insert f s.opened }
  | release {f : F} {o : ℕ} {timer : Hrtimer} : f ∈ s.opened → (∀ x ∈ s.ops, x.2.file ≠ f) →
    s.drvdata = some o → (s.mini o).timer.cancel = some timer →
    Uses s (.release f) { s.setTimer o timer with opened := s.opened.erase f }
  | call {p : T} {f : F} {op : FileOp} {o : ℕ} : f ∈ s.opened → s.op p = none →
    s.drvdata = some o → Uses s (.call p f op) (s.setOp p ⟨f, op, o, .waiting⟩)
  | pass {p : T} {i : InFlight F} : s.op p = some i → i.op = .read → i.pc = .waiting →
    (s.mini i.data).dev.Pressed → Uses s (.pass p) (s.setOp p { i with pc := .passed })
  | signal {p : T} {i : InFlight F} : s.op p = some i → i.op = .read → i.pc = .waiting →
    Uses s (.signal p) (s.setOp p { i with pc := .passed })
  | copy {p : T} {i : InFlight F} : s.op p = some i → i.pc = .passed →
    Uses s (.copy p) (s.setOp p { i with pc := .copied })
  | clear {p : T} {i : InFlight F} : s.op p = some i → i.pc = .copied →
    Uses s (.clear p) ((s.setDev i.data (s.mini i.data).dev.clearPress).endOp p)
  | returns {p : T} {i : InFlight F} : s.op p = some i → i.op = .poll →
    Uses s (.returns p) (s.endOp p)
  | expire {o : ℕ} {timer : Hrtimer} : (s.mini o).timer.expire = some timer →
    Uses s (.expire o) (s.setTimer o timer)
  | callback {o m : ℕ} {timer : Hrtimer} : (s.mini o).timer.restart = some timer →
    s.minidev = some m → Uses s (.callback o)
      ((s.setDev m (Press.callback .miniatureDriver (s.mini m).dev)).setTimer o timer)

theorem uses_of_useStep (h : useStep s u = some t) : Uses s u t := by
  cases u with
  | opens f =>
    obtain ⟨⟨hreg, hf⟩, h⟩ := Option.ite_none_right_eq_some.1 h
    obtain ⟨o, ho, ⟨⟩⟩ := Option.map_eq_some_iff.1 h
    exact .opens hreg hf ho
  | release f =>
    obtain ⟨⟨hf, hops⟩, h⟩ := Option.ite_none_right_eq_some.1 h
    obtain ⟨o, ho, h⟩ := Option.bind_eq_some_iff.1 h
    obtain ⟨timer, htimer, ⟨⟩⟩ := Option.map_eq_some_iff.1 h
    exact .release hf hops ho htimer
  | call p f op =>
    obtain ⟨⟨hf, hp⟩, h⟩ := Option.ite_none_right_eq_some.1 h
    obtain ⟨o, ho, ⟨⟩⟩ := Option.map_eq_some_iff.1 h
    exact .call hf hp ho
  | pass p =>
    obtain ⟨i, hi, h⟩ := Option.bind_eq_some_iff.1 h
    obtain ⟨⟨hop, hpc, hev⟩, ⟨⟩⟩ := Option.ite_none_right_eq_some.1 h
    exact .pass hi hop hpc hev
  | signal p =>
    obtain ⟨i, hi, h⟩ := Option.bind_eq_some_iff.1 h
    obtain ⟨⟨hop, hpc⟩, ⟨⟩⟩ := Option.ite_none_right_eq_some.1 h
    exact .signal hi hop hpc
  | copy p =>
    obtain ⟨i, hi, h⟩ := Option.bind_eq_some_iff.1 h
    obtain ⟨hpc, ⟨⟩⟩ := Option.ite_none_right_eq_some.1 h
    exact .copy hi hpc
  | clear p =>
    obtain ⟨i, hi, h⟩ := Option.bind_eq_some_iff.1 h
    obtain ⟨hpc, ⟨⟩⟩ := Option.ite_none_right_eq_some.1 h
    exact .clear hi hpc
  | returns p =>
    obtain ⟨i, hi, h⟩ := Option.bind_eq_some_iff.1 h
    obtain ⟨hop, ⟨⟩⟩ := Option.ite_none_right_eq_some.1 h
    exact .returns hi hop
  | expire o =>
    obtain ⟨timer, htimer, ⟨⟩⟩ := Option.map_eq_some_iff.1 h
    exact .expire htimer
  | callback o =>
    obtain ⟨timer, htimer, h⟩ := Option.bind_eq_some_iff.1 h
    obtain ⟨m, hm, ⟨⟩⟩ := Option.map_eq_some_iff.1 h
    exact .callback htimer hm

/-- A step of a bound device changes nothing that its binding and removal have set. -/
theorem Uses.frame (h : Uses s u t) : t.drvdata = s.drvdata ∧ t.minidev = s.minidev ∧
    t.binding = s.binding ∧ t.registered = s.registered ∧ t.probes = s.probes ∧
    t.freed = s.freed := by
  cases h with
  | opens | release | call | pass | signal | copy | clear | returns | expire | callback =>
    exact ⟨rfl, rfl, rfl, rfl, rfl, rfl⟩

end Starrysky.Miniature
