import Starrysky.Miniature.Clients
import Mathlib.Data.Finset.Basic
import Mathlib.Data.Fintype.Basic

/-!
# Any number of platform devices

`hello_driver` matches several platform devices, and each probe registers the one `misc` again,
allocates its own `mini_device` and makes that the global `minidev`. The machine binds and removes
any number of devices while clients and timers run. The registration of `misc` is in order exactly
as long as a probe finds no device bound and its `misc_register` succeeds (`registration_iff`), and
the timer of a device serves that device exactly as long as its callbacks run while no later device
has been probed (`ownDevice_iff`).
-/

namespace Starrysky.Miniature

open Transition

section Callback

variable {D F T : Type} [DecidableEq F] [DecidableEq T] {s t : Sys D F T} {o : ℕ}

/-- The callback of the timer of the object `o`, in a step from `s` to `t`, acts on `o` and on no
other object: it toggles the value, sets the flag and wakes the wait queue, so that a reader blocked
on `o` can go on. -/
structure OwnDevice (s t : Sys D F T) (o : ℕ) : Prop where
  value : (t.mem.objs o).dev.value = if (s.mem.objs o).dev.value ≠ 0 then 0 else 1
  evPress : (t.mem.objs o).dev.evPress = 1
  wakeUps : (t.mem.objs o).wakeUps = (s.mem.objs o).wakeUps + 1
  frame : ∀ k, k ≠ o → t.mem.objs k = s.mem.objs k
  released : ∀ p i, t.op p = some i → i.op = .read → i.pc = .waiting → i.data = some o →
    (t.use (.pass p)).isSome

/-- A callback writes the object of `minidev` and restarts its own timer. -/
theorem callback_objs (h : s.use (.callback o) = some t) : ∃ timer, ∀ k,
    t.mem.objs k =
      let x := if s.mem.minidev = some k then
          { s.mem.objs k with
            dev := Press.callback .miniatureDriver (s.mem.objs k).dev
            wakeUps := (s.mem.objs k).wakeUps + 1 }
        else s.mem.objs k
      if o = k then { x with timer } else x := by
  obtain ⟨timer, -, ⟨⟩⟩ := Option.map_eq_some_iff.1 h
  exact ⟨timer, fun k => by simp [write_objs]⟩

/-- The callback of the timer of `minidev` acts on its own device. -/
theorem ownDevice_of_minidev (h : s.use (.callback o) = some t) (ho : s.mem.minidev = some o) :
    OwnDevice s t o := by
  obtain ⟨timer, hobjs⟩ := callback_objs h
  have hown := hobjs o
  simp only [ho, if_true, Press.callback_eq] at hown
  refine ⟨by rw [hown], by rw [hown], by rw [hown], fun k hk => ?_, ?_⟩
  · simpa [ho, Ne.symm hk] using hobjs k
  · intro p i hp hop hpc hdata
    simp [Sys.use, hp, hop, hpc, hdata, hown, Press.Device.Pressed]

/-- Any other callback wakes nobody on its own device. -/
theorem minidev_of_ownDevice (h : s.use (.callback o) = some t) (hown : OwnDevice s t o) :
    s.mem.minidev = some o := by
  obtain ⟨timer, hobjs⟩ := callback_objs h
  by_contra hne
  have hwake := hown.wakeUps
  simp [hobjs o, hne] at hwake

end Callback

/-- The driver with the devices that are bound to it. -/
structure Platform (D F T : Type) where
  sys : Sys D F T
  bound : Finset D

inductive PlatformAct (D F T : Type) where
  /-- `hello_probe` of the device `d`, with `misc_register` returning 0 if `ok` -/
  | probe (d : D) (ok : Bool)
  /-- `hello_remove` of the device `d` -/
  | remove (d : D)
  | use (u : Use F T)
  deriving DecidableEq

variable {D F T : Type} {s t : Platform D F T} {a : PlatformAct D F T}
  {run : List (PlatformAct D F T)}

/-- The module is loaded. -/
def Platform.init : Platform D F T := { sys := .init, bound := ∅ }

/-- `misc_register(&misc)` is called only while `misc` is not registered, and
`misc_deregister(&misc)` only while it is. -/
def Calls (_ : List (PlatformAct D F T)) (s : Platform D F T) : PlatformAct D F T → Prop
  | .probe .. => s.sys.mem.registered = false
  | .remove _ => s.sys.mem.registered = true
  | .use _ => True

/-- `misc` is registered when a device is bound. -/
def Registered (_ : List (PlatformAct D F T)) (s : Platform D F T) : Prop :=
  s.bound ≠ ∅ → s.sys.mem.registered = true

/-- A device is probed while no other is bound, and its `misc_register` succeeds. -/
def Alone (_ : List (PlatformAct D F T)) (s : Platform D F T) : PlatformAct D F T → Prop
  | .probe _ ok => s.bound = ∅ ∧ ok = true
  | .remove _ | .use _ => True

/-- The timer whose callback runs belongs to the device that was probed last. -/
def LatestProbed (_ : List (PlatformAct D F T)) (s : Platform D F T) (a : PlatformAct D F T) :
    Prop :=
  ∀ o, a = .use (.callback o) → s.sys.mem.allocated = o + 1

instance (run : List (PlatformAct D F T)) (s : Platform D F T) (a : PlatformAct D F T) :
    Decidable (Calls run s a) :=
  match a with
  | .probe .. | .remove _ => inferInstanceAs (Decidable (_ = _))
  | .use _ => .isTrue trivial

theorem latestProbed_callback {o : ℕ} :
    s.sys.mem.allocated = o + 1 ↔ LatestProbed run s (.use (.callback o)) := by
  simp [LatestProbed]

instance (run : List (PlatformAct D F T)) (s : Platform D F T) (a : PlatformAct D F T) :
    Decidable (LatestProbed run s a) :=
  match a with
  | .use (.callback _) => decidable_of_iff _ latestProbed_callback
  | .probe .. | .remove _ | .use (.opens _) | .use (.release _) | .use (.call ..) | .use (.pass _)
  | .use (.signal _) | .use (.copy _) | .use (.clear _) | .use (.returns _) | .use (.expire _) =>
    .isTrue nofun

variable [DecidableEq D]

instance (run : List (PlatformAct D F T)) (s : Platform D F T) : Decidable (Registered run s) :=
  inferInstanceAs (Decidable (_ → _))

instance (run : List (PlatformAct D F T)) (s : Platform D F T) (a : PlatformAct D F T) :
    Decidable (Alone run s a) :=
  match a with
  | .probe .. => inferInstanceAs (Decidable (_ ∧ _))
  | .remove _ | .use _ => .isTrue trivial

variable [DecidableEq F] [DecidableEq T]

/-- A step of the system. The driver core probes a device that is not bound and binds it, since
`hello_probe` returns 0, and calls `hello_remove` once for a device that is bound. -/
def platformStep (s : Platform D F T) : PlatformAct D F T → Option (Platform D F T)
  | .probe d ok =>
    if d ∉ s.bound then
      some { sys := { s.sys with mem := s.sys.mem.probe d ok }, bound := insert d s.bound }
    else none
  | .remove d =>
    if d ∈ s.bound then
      some { sys := { s.sys with mem := { s.sys.mem with registered := false } }
             bound := s.bound.erase d }
    else none
  | .use u => (s.sys.use u).map fun sys => { s with sys }

/-- The steps of the system, with what enables them. -/
inductive Platform.Steps (s : Platform D F T) : PlatformAct D F T → Platform D F T → Prop
  | probe {d : D} {ok : Bool} : d ∉ s.bound → Steps s (.probe d ok)
    { sys := { s.sys with mem := s.sys.mem.probe d ok }, bound := insert d s.bound }
  | remove {d : D} : d ∈ s.bound → Steps s (.remove d)
    { sys := { s.sys with mem := { s.sys.mem with registered := false } }
      bound := s.bound.erase d }
  | use {u : Use F T} {sys : Sys D F T} : s.sys.use u = some sys → Steps s (.use u) { s with sys }

theorem steps_of_platformStep (h : platformStep s a = some t) : s.Steps a t := by
  cases a with
  | probe d ok =>
    obtain ⟨hd, ⟨⟩⟩ := Option.ite_none_right_eq_some.1 h
    exact .probe hd
  | remove d =>
    obtain ⟨hd, ⟨⟩⟩ := Option.ite_none_right_eq_some.1 h
    exact .remove hd
  | use u =>
    obtain ⟨sys, hsys, ⟨⟩⟩ := Option.map_eq_some_iff.1 h
    exact .use hsys

/-! ## The registration of `misc` -/

/-- At most one device is bound, and `misc` is registered with it. -/
structure OneBound (s : Platform D F T) : Prop where
  one : ∀ d ∈ s.bound, s.bound = {d}
  registered : s.sys.mem.registered = true ↔ s.bound ≠ ∅

/-- A device that is probed alone, with success, keeps `misc` registered exactly while a device is
bound. -/
theorem OneBound.step (one : OneBound s) (halone : Alone run s a) (h : s.Steps a t) :
    OneBound t := by
  cases h with
  | @probe d ok hd =>
    obtain ⟨hempty, rfl⟩ := halone
    refine ⟨fun k hk => ?_, ?_⟩
    · obtain rfl : k = d := by simpa [hempty] using hk
      simp [hempty]
    · simp [helloProbe_eq]
  | @remove d hd =>
    have hnone : s.bound.erase d = ∅ := by simp [one.one d hd]
    exact ⟨by simp [hnone], by simp [hnone]⟩
  | use hsys =>
    have hkept := (Sys.uses_of_use hsys).kept
    exact ⟨one.one, by rw [hkept.registered]; exact one.registered⟩

/-- In every run that probes its devices one at a time, with success, at most one is bound, and
`misc` is registered with it. -/
theorem oneBound_of_alone (h : exec platformStep Platform.init run = some s)
    (halone : Meets platformStep Platform.init Alone run) : OneBound s := by
  refine halone.induction (P := fun _ s => OneBound s) ?_ ?_ h
  · exact ⟨by simp [Platform.init], by simp [Platform.init, Sys.init, Memory.init]⟩
  · exact fun _ one halone hstep => one.step halone (steps_of_platformStep hstep)

theorem Alone.calls (one : OneBound s) (halone : Alone run s a) (h : s.Steps a t) :
    Calls run s a := by
  cases h with
  | probe =>
    have hnone : ¬ s.sys.mem.registered = true := by simp [one.registered, halone.1]
    exact Bool.eq_false_iff.2 hnone
  | remove hd => exact one.registered.2 (Finset.ne_empty_of_mem hd)
  | use => trivial

/-- A probe that finds `misc` unregistered finds no device bound, and leaves `misc` registered only
if its `misc_register` succeeds. -/
theorem alone_of_calls {run' : List (PlatformAct D F T)} (hcalls : Calls run s a)
    (hs : Registered run s) (ht : Registered run' t) (h : s.Steps a t) : Alone run s a := by
  cases h with
  | @probe d ok hd =>
    have hunreg : s.sys.mem.registered = false := hcalls
    have hok := ht (Finset.insert_ne_empty d s.bound)
    refine ⟨?_, by simpa [helloProbe_eq, hunreg] using hok⟩
    by_contra hne
    exact Bool.false_ne_true (hunreg.symm.trans (hs hne))
  | remove | use => trivial

/-- **The registration of `misc` is in order exactly when the devices come one at a time.** In a run
of any number of devices, `misc` is registered only while it is not, deregistered only while it is,
and registered in every state with a bound device, if and only if every probe finds no device bound
and its `misc_register` succeeds. -/
theorem registration_iff {D F T : Type} [DecidableEq D] [DecidableEq F] [DecidableEq T]
    (run : List (PlatformAct D F T)) (s : Platform D F T)
    (h : exec platformStep Platform.init run = some s) :
    Meets platformStep Platform.init Calls run ∧
        Throughout platformStep Platform.init Registered run ↔
      Meets platformStep Platform.init Alone run := by
  constructor
  · rintro ⟨hcalls, hreg⟩ pre a post u rfl hu
    obtain ⟨t, ht, hexec⟩ := exec_taken h hu
    exact alone_of_calls (hcalls pre a post u rfl hu) (hreg pre _ u rfl hu)
      (hreg (pre ++ [a]) post t (by simp) hexec) (steps_of_platformStep ht)
  · intro halone
    refine ⟨?_, ?_⟩
    · rintro pre a post u rfl hu
      obtain ⟨t, ht, -⟩ := exec_taken h hu
      exact (halone pre a post u rfl hu).calls (oneBound_of_alone hu halone.left)
        (steps_of_platformStep ht)
    · rintro pre post u rfl hu
      exact (oneBound_of_alone hu halone.left).registered.2

theorem registration_one_after_another :
    Meets platformStep (Platform.init : Platform (Fin 2) Unit Unit) Calls
      [.probe 0 true, .use (.opens ()), .remove 0, .probe 1 true] ∧
    Throughout platformStep (Platform.init : Platform (Fin 2) Unit Unit) Registered
      [.probe 0 true, .use (.opens ()), .remove 0, .probe 1 true] := by
  obtain ⟨s, hs⟩ : ∃ s, exec platformStep (Platform.init : Platform (Fin 2) Unit Unit)
      [.probe 0 true, .use (.opens ()), .remove 0, .probe 1 true] = some s := ⟨_, rfl⟩
  exact (registration_iff _ s hs).2 (by decide +kernel)

/-- Two devices are bound, the second one's `misc_register` fails, and both are removed: `misc` is
registered while it is registered, and deregistered while it is not. -/
theorem not_registration_two_devices :
    (exec platformStep (Platform.init : Platform (Fin 2) Unit Unit)
      [.probe 0 true, .probe 1 false, .remove 0, .remove 1]).isSome ∧
    ¬ Meets platformStep (Platform.init : Platform (Fin 2) Unit Unit) Calls
      [.probe 0 true, .probe 1 false, .remove 0, .remove 1] ∧
    ¬ Throughout platformStep (Platform.init : Platform (Fin 2) Unit Unit) Registered
      [.probe 0 true, .probe 1 false, .remove 0, .remove 1] := by
  decide +kernel

/-! ## The timers of the devices -/

/-- A callback acts on the device of its timer. -/
def ActsOnOwn (_ : List (PlatformAct D F T)) (s : Platform D F T) (a : PlatformAct D F T) : Prop :=
  ∀ o, a = .use (.callback o) → ∀ t, platformStep s a = some t → OwnDevice s.sys t.sys o

/-- The global `minidev` is the object of the latest probe. -/
theorem minidev_iff (h : exec platformStep Platform.init run = some s) (k : ℕ) :
    s.sys.mem.minidev = some k ↔ s.sys.mem.allocated = k + 1 := by
  refine exec_induction (P := fun _ s => s.sys.mem.minidev = some k ↔ s.sys.mem.allocated = k + 1)
    ?_ ?_ h
  · simp [Platform.init, Sys.init, Memory.init]
  · intro run s a t _ hs hstep
    cases steps_of_platformStep hstep with
    | probe => simp [helloProbe_eq]
    | remove => exact hs
    | use hsys =>
      have hkept := (Sys.uses_of_use hsys).kept
      rw [hkept.minidev, hkept.allocated]
      exact hs

/-- **A timer serves its own device exactly until the next probe.** In a run of any number of
devices, every callback acts on the device of its timer and on no other, if and only if every
callback is that of the timer of the device that was probed last. -/
theorem ownDevice_iff {D F T : Type} [DecidableEq D] [DecidableEq F] [DecidableEq T]
    (run : List (PlatformAct D F T)) (s : Platform D F T)
    (h : exec platformStep Platform.init run = some s) :
    Meets platformStep Platform.init ActsOnOwn run ↔
      Meets platformStep Platform.init LatestProbed run := by
  refine meets_iff_meets (I := fun _ _ => True) trivial (fun _ _ _ _ => trivial) ?_ ?_ h
  · rintro run s _ t hrun - hlatest - o rfl t' ht'
    obtain ⟨sys, hsys, ⟨⟩⟩ := Option.map_eq_some_iff.1 ht'
    exact ownDevice_of_minidev hsys ((minidev_iff hrun o).2 (hlatest o rfl))
  · rintro run s _ t hrun hstep hown o rfl
    have ho := hown o rfl t hstep
    obtain ⟨sys, hsys, ⟨⟩⟩ := Option.map_eq_some_iff.1 hstep
    exact (minidev_iff hrun o).1 (minidev_of_ownDevice hsys ho)

theorem ownDevice_two_devices :
    Meets platformStep (Platform.init : Platform (Fin 2) (Fin 2) Unit) ActsOnOwn
      [.probe 0 true, .use (.opens 0), .use (.expire 0), .use (.callback 0), .probe 1 true,
        .use (.opens 1), .use (.expire 1), .use (.callback 1)] := by
  obtain ⟨s, hs⟩ : ∃ s, exec platformStep (Platform.init : Platform (Fin 2) (Fin 2) Unit)
      [.probe 0 true, .use (.opens 0), .use (.expire 0), .use (.callback 0), .probe 1 true,
        .use (.opens 1), .use (.expire 1), .use (.callback 1)] = some s := ⟨_, rfl⟩
  exact (ownDevice_iff _ s hs).2 (by decide +kernel)

/-- The first device is opened, and its timer expires after the second device was probed: the
callback sets the flag of the second one. -/
theorem not_ownDevice_later_probe :
    (exec platformStep (Platform.init : Platform (Fin 2) Unit Unit)
      [.probe 0 true, .use (.opens ()), .probe 1 false, .use (.expire 0),
        .use (.callback 0)]).isSome ∧
    ¬ Meets platformStep (Platform.init : Platform (Fin 2) Unit Unit) ActsOnOwn
      [.probe 0 true, .use (.opens ()), .probe 1 false, .use (.expire 0), .use (.callback 0)] := by
  refine ⟨rfl, fun h => ?_⟩
  have hown := h [.probe 0 true, .use (.opens ()), .probe 1 false, .use (.expire 0)] _ [] _ rfl rfl
    0 rfl _ rfl
  exact absurd hown.wakeUps (by decide +kernel)

end Starrysky.Miniature
