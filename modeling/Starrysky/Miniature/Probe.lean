import Starrysky.Miniature.MiniDevice

/-!
# The statements of `hello_probe`

The memory of the miniature driver with any number of platform devices, and `hello_probe` as the
statements it runs on that memory. One `misc` and one global `minidev` serve all devices: a probe
registers `misc`, then allocates a `mini_device` and fills it through the global, and makes it the
driver data of `misc.this_device` only at its end. `helloProbe_eq` is what a whole probe does.
-/

namespace Starrysky.Miniature

open Press

/-- What of a `mini_device` has been initialised. -/
structure Setup where
  waitq : Bool
  timer : Bool
  function : Bool
  deriving DecidableEq

/-- A `mini_device`, what of it has been initialised, and how often its wait queue was woken. -/
structure Object extends MiniDevice where
  setup : Setup
  wakeUps : ℕ
  deriving DecidableEq

/-- The wait queue and the timer, its function included, can be used. -/
def Object.Initialised (x : Object) : Prop := x.setup = ⟨true, true, true⟩

instance (x : Object) : Decidable x.Initialised := inferInstanceAs (Decidable (_ = _))

/-- What `devm_kzalloc` returns. -/
def Object.zero : Object :=
  { dev := ⟨0, 0, 0⟩, timer := .init, setup := ⟨false, false, false⟩, wakeUps := 0 }

/-- The object that a probe leaves behind. -/
def Object.probed : Object :=
  { dev := Device.init .miniatureDriver, timer := .init, setup := ⟨true, true, true⟩, wakeUps := 0 }

/-- The memory of the driver with the platform devices `D`. The objects are numbered in the order of
their allocation. `drvdata` is the object that is the driver data of `misc.this_device`, if it is
one: `misc_register` knows of none and makes a `this_device` whose driver data is `NULL` or its own.
-/
structure Memory (D : Type) where
  objs : ℕ → Object
  allocated : ℕ
  minidev : Option ℕ
  registered : Bool
  drvdata : Option ℕ
  pdata : D → Option ℕ

variable {D : Type}

/-- The module is loaded. -/
def Memory.init : Memory D :=
  { objs := fun _ => .zero, allocated := 0, minidev := none, registered := false, drvdata := none
    pdata := fun _ => none }

/-- A write through a pointer to an object; through a `NULL` pointer nothing is modelled. -/
def Memory.write (m : Memory D) (ptr : Option ℕ) (f : Object → Object) : Memory D :=
  match ptr with
  | none => m
  | some o => { m with objs := Function.update m.objs o (f (m.objs o)) }

/-- The statements of `hello_probe`; `ok` is whether `misc_register` returns 0, which the driver
does not look at. -/
inductive ProbeStmt where
  | miscRegister (ok : Bool)
  | kzalloc
  | setValue
  | initWaitqueue
  | setKt
  | hrtimerInit
  | setFunction
  | setMiscDrvdata
  | setPdevDrvdata
  deriving DecidableEq

/-- `hello_probe`. -/
def helloProbe (ok : Bool) : List ProbeStmt :=
  [.miscRegister ok, .kzalloc, .setValue, .initWaitqueue, .setKt, .hrtimerInit, .setFunction,
    .setMiscDrvdata, .setPdevDrvdata]

variable [DecidableEq D]

/-- A statement of the probe of the device `d`. Without a registered `misc` there is no
`this_device` whose driver data could be set. -/
def ProbeStmt.exec (d : D) (m : Memory D) : ProbeStmt → Memory D
  | .miscRegister ok =>
    { m with registered := m.registered || ok, drvdata := if ok then none else m.drvdata }
  | .kzalloc =>
    { m with
      objs := Function.update m.objs m.allocated .zero
      allocated := m.allocated + 1
      minidev := some m.allocated }
  | .setValue => m.write m.minidev fun x => { x with dev := { x.dev with value := 19 } }
  | .initWaitqueue => m.write m.minidev fun x => { x with setup := { x.setup with waitq := true } }
  | .setKt => m.write m.minidev fun x => { x with dev := { x.dev with kt := ktimeSet 1 10 } }
  | .hrtimerInit => m.write m.minidev fun x =>
    { x with timer := .init, setup := { x.setup with timer := true } }
  | .setFunction => m.write m.minidev fun x => { x with setup := { x.setup with function := true } }
  | .setMiscDrvdata => { m with drvdata := if m.registered then m.minidev else m.drvdata }
  | .setPdevDrvdata => { m with pdata := Function.update m.pdata d m.minidev }

/-- A whole probe of the device `d`. -/
def Memory.probe (m : Memory D) (d : D) (ok : Bool) : Memory D :=
  (helloProbe ok).foldl (ProbeStmt.exec d) m

variable {m : Memory D} {d : D} {ok : Bool}

/-- A whole probe: the new object is initialised and becomes `minidev` and the driver data of both
devices, of `misc.this_device` provided `misc` is registered. -/
theorem helloProbe_eq : m.probe d ok =
    { objs := Function.update m.objs m.allocated .probed
      allocated := m.allocated + 1
      minidev := some m.allocated
      registered := m.registered || ok
      drvdata := if m.registered || ok then some m.allocated else m.drvdata
      pdata := Function.update m.pdata d (some m.allocated) } := by
  cases ok <;> cases hreg : m.registered <;>
    simp [Memory.probe, helloProbe, ProbeStmt.exec, Memory.write, hreg, Object.zero,
      Object.probed, Device.init]

end Starrysky.Miniature
