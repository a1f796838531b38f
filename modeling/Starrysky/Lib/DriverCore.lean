import Starrysky.Lib.Transition
import Mathlib.Data.List.Nodup
import Mathlib.Logic.Function.Basic

/-!
# The driver core of a bus

Devices and drivers come and go on a bus in any order. A name is held by one device, and by one
driver, at a time, so that a registration can be refused. A device that comes is probed by the
drivers that fit it, in the order of their registration, until a probe succeeds; a driver that comes
probes the devices that it fits and that have no driver; and a device that loses its driver is not
probed again. `calls` are the functions of the drivers that a registration or its end calls:
`exec_calls` says that each call is in order, `exec_trace` is the simulation rule for what the
drivers keep of them, and `settled_iff` says when no device is left without a driver that fits it.
-/

namespace DriverCore

open Transition

variable {D R N E : Type*}

/-- What a bus knows of its devices and drivers. `probe r e` is whether the probe of the driver `r`
succeeds when the world answers it `e`. -/
structure Bus (D R N E : Type*) where
  deviceName : D → N
  driverName : R → N
  fits : D → R → Bool
  probe : R → E → Bool

/-- The devices and the drivers in the order of their registration, and the driver of each device.
-/
structure Registry (D R : Type*) where
  devices : List D
  drivers : List R
  bound : D → Option R

def Registry.init : Registry D R := { devices := [], drivers := [], bound := fun _ => none }

/-- A registration, with what the world answers to the probes, or its end. -/
inductive Act (D R E : Type*) where
  | addDevice (d : D) (answer : R → E)
  | removeDevice (d : D)
  | addDriver (r : R) (answer : D → E)
  | removeDriver (r : R)

/-- A call of a function of a driver. -/
inductive Call (D R E : Type*) where
  | probe (d : D) (r : R) (e : E)
  | remove (d : D) (r : R)

/-- The driver that a call is made to. -/
def Call.driver : Call D R E → R
  | .probe _ r _ | .remove _ r => r

/-- The probes of a device that comes. -/
def attach (bus : Bus D R N E) (d : D) (answer : R → E) : List R → List (Call D R E)
  | [] => []
  | r :: rs =>
    if bus.fits d r then
      .probe d r (answer r) :: if bus.probe r (answer r) then [] else attach bus d answer rs
    else attach bus d answer rs

/-- The registry without the one that goes. -/
def leave [DecidableEq D] [DecidableEq R] (s : Registry D R) : Act D R E → Registry D R
  | .addDevice .. | .addDriver .. => s
  | .removeDevice d => { s with devices := s.devices.erase d }
  | .removeDriver r => { s with drivers := s.drivers.erase r }

section Calls

variable [DecidableEq D] [DecidableEq R]

/-- The calls that are made while the registry is `s`. A driver that goes loses its latest device
first. -/
def calls (bus : Bus D R N E) (s : Registry D R) : Act D R E → List (Call D R E)
  | .addDevice d answer => attach bus d answer s.drivers
  | .removeDevice d =>
    match s.bound d with
    | none => []
    | some r => [.remove d r]
  | .addDriver r answer =>
    (s.devices.filter fun d => s.bound d = none ∧ bus.fits d r).map fun d => .probe d r (answer d)
  | .removeDriver r => (s.devices.filter fun d => s.bound d = some r).reverse.map (.remove · r)

/-- What a call does to the registry. -/
def Call.exec (bus : Bus D R N E) (s : Registry D R) : Call D R E → Registry D R
  | .probe d r e =>
    if bus.probe r e then { s with bound := Function.update s.bound d (some r) } else s
  | .remove d _ => { s with bound := Function.update s.bound d none }

/-- A call in order: a probe is of a device that has no driver, and by a driver that fits it, and a
removal is by the driver of the device. -/
def Call.InOrder (bus : Bus D R N E) (s : Registry D R) : Call D R E → Prop
  | .probe d r _ => d ∈ s.devices ∧ r ∈ s.drivers ∧ s.bound d = none ∧ bus.fits d r
  | .remove d r => s.bound d = some r

instance (bus : Bus D R N E) (s : Registry D R) (c : Call D R E) : Decidable (c.InOrder bus s) :=
  match c with
  | .probe .. => inferInstanceAs (Decidable (_ ∧ _))
  | .remove .. => inferInstanceAs (Decidable (_ = _))

def callStep (bus : Bus D R N E) (s : Registry D R) (c : Call D R E) : Option (Registry D R) :=
  if c.InOrder bus s then some (c.exec bus s) else none

/-- The drivers of the devices after the calls. -/
def boundAfter (bus : Bus D R N E) (s : Registry D R) : Act D R E → D → Option R
  | .addDevice d answer => Function.update s.bound d
    (s.drivers.find? fun r => bus.fits d r && bus.probe r (answer r))
  | .removeDevice d => Function.update s.bound d none
  | .addDriver r answer => fun d =>
    if (d ∈ s.devices ∧ s.bound d = none ∧ bus.fits d r) ∧ bus.probe r (answer d) then some r
    else s.bound d
  | .removeDriver r => fun d => if s.bound d = some r then none else s.bound d

end Calls

section Step

variable [DecidableEq D] [DecidableEq R] [DecidableEq N]

/-- The registry while the calls are made. A registration whose name is taken is refused. -/
def enter (bus : Bus D R N E) (s : Registry D R) : Act D R E → Option (Registry D R)
  | .addDevice d _ =>
    if bus.deviceName d ∈ s.devices.map bus.deviceName then none
    else some { s with devices := s.devices ++ [d] }
  | .addDriver r _ =>
    if bus.driverName r ∈ s.drivers.map bus.driverName then none
    else some { s with drivers := s.drivers ++ [r] }
  | .removeDevice d => if d ∈ s.devices then some s else none
  | .removeDriver r => if r ∈ s.drivers then some s else none

def step (bus : Bus D R N E) (s : Registry D R) (a : Act D R E) : Option (Registry D R) :=
  (enter bus s a).map fun u => leave ((calls bus u a).foldl (Call.exec bus) u) a

/-- The calls of a run. -/
def trace (bus : Bus D R N E) : Registry D R → List (Act D R E) → List (Call D R E) :=
  log (step bus) fun s a => (enter bus s a).elim [] fun u => calls bus u a

end Step

/-- What holds of every registry. -/
structure RegistryOk (bus : Bus D R N E) (s : Registry D R) : Prop where
  devices : (s.devices.map bus.deviceName).Nodup
  drivers : (s.drivers.map bus.driverName).Nodup
  bound : ∀ {d r}, s.bound d = some r → d ∈ s.devices ∧ r ∈ s.drivers ∧ bus.fits d r

/-- No device is without a driver when one fits it. -/
def Settled (bus : Bus D R N E) (s : Registry D R) : Prop :=
  ∀ d ∈ s.devices, ∀ r ∈ s.drivers, bus.fits d r → s.bound d ≠ none

/-- The step leaves no device without a driver that fits it: one that comes is probed with success
if any driver fits it, a driver that comes probes with success, and no device of a driver that goes
is fitted by another. -/
def Settling (bus : Bus D R N E) (s : Registry D R) : Act D R E → Prop
  | .addDevice d answer => (∃ r ∈ s.drivers, bus.fits d r) →
    ∃ r ∈ s.drivers, bus.fits d r ∧ bus.probe r (answer r)
  | .removeDevice _ => True
  | .addDriver r answer => ∀ d ∈ s.devices, s.bound d = none → bus.fits d r → bus.probe r (answer d)
  | .removeDriver r => ∀ d ∈ s.devices, s.bound d = some r → ∀ q ∈ s.drivers, q ≠ r → ¬ bus.fits d q

variable {bus : Bus D R N E} {s t u : Registry D R} {a : Act D R E} {c : Call D R E}
  {cs : List (Call D R E)} {d : D} {r : R} {run : List (Act D R E)}

/-! ## Calls in order -/

@[simp] theorem leave_bound [DecidableEq D] [DecidableEq R] : (leave s a).bound = s.bound := by
  cases a <;> rfl

theorem RegistryOk.init : RegistryOk bus .init := ⟨.nil, .nil, nofun⟩

theorem mem_devices_of_leave [DecidableEq D] [DecidableEq R] (h : d ∈ (leave s a).devices) :
    d ∈ s.devices := by
  cases a with
  | removeDevice d' => exact List.mem_of_mem_erase h
  | addDevice | addDriver | removeDriver => exact h

/-- Two devices of one name are one device. -/
theorem RegistryOk.device_ext (hs : RegistryOk bus s) {d' : D} (hd : d ∈ s.devices)
    (hd' : d' ∈ s.devices) (h : bus.deviceName d = bus.deviceName d') : d = d' :=
  List.inj_on_of_nodup_map hs.devices hd hd' h

/-- Two drivers of one name are one driver. -/
theorem RegistryOk.driver_ext (hs : RegistryOk bus s) {r' : R} (hr : r ∈ s.drivers)
    (hr' : r' ∈ s.drivers) (h : bus.driverName r = bus.driverName r') : r = r' :=
  List.inj_on_of_nodup_map hs.drivers hr hr' h

section Calls

variable [DecidableEq D]

@[simp] theorem Call.exec_devices : (c.exec bus s).devices = s.devices := by
  cases c with
  | probe d r e => by_cases h : bus.probe r e <;> simp [exec, h]
  | remove => rfl

@[simp] theorem Call.exec_drivers : (c.exec bus s).drivers = s.drivers := by
  cases c with
  | probe d r e => by_cases h : bus.probe r e <;> simp [exec, h]
  | remove => rfl

@[simp] theorem Call.exec_probe_bound {e : E} {d' : D} :
    (Call.exec bus s (.probe d r e)).bound d' =
      if d' = d ∧ bus.probe r e then some r else s.bound d' := by
  by_cases hp : bus.probe r e <;> simp [exec, hp, Function.update_apply]

@[simp] theorem Call.exec_remove_bound {d' : D} :
    (Call.exec bus s (.remove d r)).bound d' = if d' = d then none else s.bound d' := by
  simp [exec, Function.update_apply]

/-- A call in order gives and takes no device but its driver's own. -/
theorem Call.exec_bound_of_ne (hc : c.InOrder bus s) (hr : c.driver ≠ r) :
    (c.exec bus s).bound d = some r ↔ s.bound d = some r := by
  cases c with
  | probe d' r' e =>
    obtain ⟨-, -, hnone, -⟩ := hc
    rw [exec_probe_bound]
    split
    · next h => simp [h.1, hnone, show r' ≠ r from hr]
    · exact Iff.rfl
  | remove d' r' =>
    have hbound : s.bound d' = some r' := hc
    rw [exec_remove_bound]
    split
    · next h => simp [h, hbound, show r' ≠ r from hr]
    · exact Iff.rfl

/-- A call in order keeps the registry. -/
theorem RegistryOk.call (hs : RegistryOk bus s) (hc : c.InOrder bus s) :
    RegistryOk bus (c.exec bus s) := by
  refine ⟨by simpa using hs.devices, by simpa using hs.drivers, ?_⟩
  intro d' r' hbound
  rw [Call.exec_devices, Call.exec_drivers]
  cases c with
  | probe d r e =>
    obtain ⟨hd, hr, -, hfits⟩ := hc
    rw [Call.exec_probe_bound] at hbound
    split at hbound
    · next h =>
      obtain ⟨⟨rfl, -⟩, rfl⟩ := And.intro h (Option.some.inj hbound)
      exact ⟨hd, hr, hfits⟩
    · exact hs.bound hbound
  | remove d r =>
    rw [Call.exec_remove_bound] at hbound
    exact hs.bound (Option.ite_none_left_eq_some.1 hbound).2

variable [DecidableEq R]

theorem callStep_eq_some : callStep bus s c = some t ↔ c.InOrder bus s ∧ c.exec bus s = t := by
  simp [callStep]

/-- Calls in order leave the registry that they make. -/
theorem foldl_exec (h : exec (callStep bus) s cs = some t) : cs.foldl (Call.exec bus) s = t :=
  foldl_of_exec (g := id) (fun hstep => (callStep_eq_some.1 hstep).2) h

/-- Calls in order keep the registry, its devices and its drivers. -/
theorem RegistryOk.calls (hs : RegistryOk bus s) (h : exec (callStep bus) s cs = some t) :
    RegistryOk bus t ∧ t.devices = s.devices ∧ t.drivers = s.drivers := by
  refine exec_induction (P := fun _ t =>
    RegistryOk bus t ∧ t.devices = s.devices ∧ t.drivers = s.drivers) ⟨hs, rfl, rfl⟩ ?_ h
  rintro _ t c _ - ⟨ht, hdevices, hdrivers⟩ hstep
  obtain ⟨hc, rfl⟩ := callStep_eq_some.1 hstep
  exact ⟨ht.call hc, by simpa using hdevices, by simpa using hdrivers⟩

/-- **The simulation rule, of the calls of a step.** A client that follows every call in order, by
actions of its own, follows calls in order. -/
theorem exec_client {σ α : Type*} {client : σ → α → Option σ} {f : Call D R E → List α}
    {P : Registry D R → σ → Prop}
    (call : ∀ {u x c}, RegistryOk bus u → P u x → c.InOrder bus u →
      ∃ y, exec client x (f c) = some y ∧ P (c.exec bus u) y)
    {x : σ} (hs : RegistryOk bus s) (hx : P s x) (h : exec (callStep bus) s cs = some t) :
    ∃ y, exec client x (cs.flatMap f) = some y ∧ P t y := by
  refine (exec_simulation (R := fun u x => RegistryOk bus u ∧ P u x) ?_ ⟨hs, hx⟩ h).imp
    fun y hy => ⟨hy.1, hy.2.2⟩
  rintro u c v x ⟨hu, hx⟩ hstep
  obtain ⟨hc, rfl⟩ := callStep_eq_some.1 hstep
  obtain ⟨y, hy, hP⟩ := call hu hx hc
  exact ⟨y, hy, hu.call hc, hP⟩

/-! ## The calls of each registration -/

/-- A device that comes gets the first driver that fits it and whose probe succeeds. -/
theorem exec_attach {answer : R → E} {rs : List R} (hd : d ∈ s.devices) (hnone : s.bound d = none)
    (hrs : ∀ r ∈ rs, r ∈ s.drivers) :
    exec (callStep bus) s (attach bus d answer rs) = some { s with
      bound := Function.update s.bound d
        (rs.find? fun r => bus.fits d r && bus.probe r (answer r)) } := by
  induction rs with
  | nil => simp [attach, ← hnone]
  | cons r rs ih =>
    have htail := ih fun r hr => hrs r (by simp [hr])
    by_cases hfits : bus.fits d r
    · have hstep : callStep bus s (.probe d r (answer r)) = some (Call.exec bus s _) :=
        if_pos ⟨hd, hrs r (by simp), hnone, hfits⟩
      by_cases hp : bus.probe r (answer r)
      · simp [attach, hfits, hp, hstep, Call.exec]
      · simpa [attach, hfits, hp, hstep, Call.exec] using htail
    · simpa [attach, hfits] using htail

/-- A driver that comes gets the devices that it probes with success. -/
theorem exec_probes {answer : D → E} {ds : List D} (hnodup : ds.Nodup) (hr : r ∈ s.drivers)
    (hds : ∀ d ∈ ds, d ∈ s.devices ∧ s.bound d = none ∧ bus.fits d r) :
    exec (callStep bus) s (ds.map fun d => .probe d r (answer d)) = some { s with
      bound := fun d => if d ∈ ds ∧ bus.probe r (answer d) then some r else s.bound d } := by
  induction ds generalizing s with
  | nil => simp
  | cons d ds ih =>
    obtain ⟨hd, hnodup⟩ := List.nodup_cons.1 hnodup
    obtain ⟨hpresent, hnone, hfits⟩ := hds d (by simp)
    have hstep : callStep bus s (.probe d r (answer d)) = some (Call.exec bus s _) :=
      if_pos ⟨hpresent, hr, hnone, hfits⟩
    rw [List.map_cons, exec_cons, hstep, Option.bind_some, ih hnodup (by simpa using hr)]
    · simp only [Call.exec_devices, Call.exec_drivers, Call.exec_probe_bound]
      congr 2
      funext d'
      by_cases hd' : d' = d
      · simp [hd', hd]
      · simp [hd']
    · intro d' hd'
      have hne : d' ≠ d := fun h => hd (h ▸ hd')
      simpa [hne] using hds d' (by simp [hd'])

/-- A driver that goes loses its devices. -/
theorem exec_removes {ds : List D} (hnodup : ds.Nodup) (hds : ∀ d ∈ ds, s.bound d = some r) :
    exec (callStep bus) s (ds.map (.remove · r)) = some { s with
      bound := fun d => if d ∈ ds then none else s.bound d } := by
  induction ds generalizing s with
  | nil => simp
  | cons d ds ih =>
    obtain ⟨hd, hnodup⟩ := List.nodup_cons.1 hnodup
    have hstep : callStep bus s (.remove d r) = some (Call.exec bus s _) := if_pos (hds d (by simp))
    rw [List.map_cons, exec_cons, hstep, Option.bind_some, ih hnodup]
    · simp only [Call.exec_devices, Call.exec_drivers, Call.exec_remove_bound]
      congr 2
      funext d'
      by_cases hd' : d' = d
      · simp [hd']
      · simp [hd']
    · intro d' hd'
      have hne : d' ≠ d := fun h => hd (h ▸ hd')
      simpa [hne] using hds d' (by simp [hd'])

end Calls

/-! ## Steps and runs -/

section Steps

variable [DecidableEq D] [DecidableEq R] [DecidableEq N]

/-- The registry while the calls are made. -/
theorem RegistryOk.enter (hs : RegistryOk bus s) (h : enter bus s a = some u) :
    RegistryOk bus u ∧ u.bound = s.bound := by
  cases a with
  | addDevice d answer =>
    obtain ⟨hname, ⟨⟩⟩ := Option.ite_none_left_eq_some.1 h
    refine ⟨⟨?_, hs.drivers, fun hbound => ?_⟩, rfl⟩
    · simpa [List.nodup_append, hs.devices] using hname
    · obtain ⟨hd, hrest⟩ := hs.bound hbound
      exact ⟨List.mem_append_left _ hd, hrest⟩
  | addDriver r answer =>
    obtain ⟨hname, ⟨⟩⟩ := Option.ite_none_left_eq_some.1 h
    refine ⟨⟨hs.devices, ?_, fun hbound => ?_⟩, rfl⟩
    · simpa [List.nodup_append, hs.drivers] using hname
    · obtain ⟨hd, hr, hfits⟩ := hs.bound hbound
      exact ⟨hd, List.mem_append_left _ hr, hfits⟩
  | removeDevice d | removeDriver r =>
    obtain ⟨-, ⟨⟩⟩ := Option.ite_none_right_eq_some.1 h
    exact ⟨hs, rfl⟩

/-- A device that is there while the calls are made was there, or comes. -/
theorem mem_devices_of_enter (h : enter bus s a = some u) (hd : d ∈ u.devices) :
    d ∈ s.devices ∨ ∃ answer, a = .addDevice d answer := by
  cases a with
  | addDevice d' answer =>
    obtain ⟨-, ⟨⟩⟩ := Option.ite_none_left_eq_some.1 h
    rcases List.mem_append.1 hd with hd | hd
    · exact .inl hd
    · exact .inr ⟨answer, by rw [List.mem_singleton.1 hd]⟩
  | addDriver r answer =>
    obtain ⟨-, ⟨⟩⟩ := Option.ite_none_left_eq_some.1 h
    exact .inl hd
  | removeDevice d | removeDriver r =>
    obtain ⟨-, ⟨⟩⟩ := Option.ite_none_right_eq_some.1 h
    exact .inl hd

/-- The calls of a step are in order, and give the devices their drivers. -/
theorem exec_calls (hs : RegistryOk bus s) (h : enter bus s a = some u) :
    exec (callStep bus) u (calls bus u a) = some { u with bound := boundAfter bus u a } := by
  obtain ⟨hu, hbound⟩ := hs.enter h
  cases a with
  | addDevice d answer =>
    obtain ⟨hname, ⟨⟩⟩ := Option.ite_none_left_eq_some.1 h
    refine exec_attach (by simp) (Option.eq_none_iff_forall_ne_some.2 fun r hr => hname ?_)
      fun r hr => hr
    exact List.mem_map_of_mem (hs.bound hr).1
  | removeDevice d =>
    cases hd : u.bound d with
    | none =>
      have hsame : Function.update u.bound d none = u.bound := by rw [← hd, Function.update_eq_self]
      simp [calls, boundAfter, hd, hsame]
    | some r =>
      have hstep : callStep bus u (.remove d r) = some (Call.exec bus u _) := if_pos hd
      simp [calls, boundAfter, hd, hstep, Call.exec]
  | addDriver r answer =>
    obtain ⟨-, ⟨⟩⟩ := Option.ite_none_left_eq_some.1 h
    refine (exec_probes (hu.devices.of_map.filter _) (by simp) ?_).trans ?_
    · simp
    · simp [boundAfter]
  | removeDriver r =>
    refine (exec_removes (List.nodup_reverse.2 (hu.devices.of_map.filter _)) ?_).trans ?_
    · simp
    · congr 2
      funext d
      by_cases hd : u.bound d = some r
      · simp [boundAfter, hd, (hu.bound hd).1]
      · simp [boundAfter, hd]

/-- **What a step does.** -/
theorem step_eq_some (hs : RegistryOk bus s) : step bus s a = some t ↔
    ∃ u, enter bus s a = some u ∧ leave { u with bound := boundAfter bus u a } a = t := by
  rw [step, Option.map_eq_some_iff]
  refine exists_congr fun u => and_congr_right fun hu => ?_
  rw [foldl_exec (exec_calls hs hu)]

theorem mem_drivers_of_addDriver {answer : D → E} (hs : RegistryOk bus s)
    (h : step bus s (.addDriver r answer) = some t) : r ∈ t.drivers := by
  obtain ⟨u, hu, rfl⟩ := (step_eq_some hs).1 h
  obtain ⟨-, ⟨⟩⟩ := Option.ite_none_left_eq_some.1 hu
  simp [leave]

/-- A driver stays until it is removed. -/
theorem mem_drivers_of_step (hs : RegistryOk bus s) (h : step bus s a = some t)
    (hr : r ∈ s.drivers) (ha : a ≠ .removeDriver r) : r ∈ t.drivers := by
  obtain ⟨u, hu, rfl⟩ := (step_eq_some hs).1 h
  cases a with
  | addDevice | addDriver =>
    obtain ⟨-, ⟨⟩⟩ := Option.ite_none_left_eq_some.1 hu
    simp [leave, hr]
  | removeDevice d =>
    obtain ⟨-, ⟨⟩⟩ := Option.ite_none_right_eq_some.1 hu
    exact hr
  | removeDriver q =>
    obtain ⟨-, ⟨⟩⟩ := Option.ite_none_right_eq_some.1 hu
    exact (List.mem_erase_of_ne fun hq => ha (by rw [hq])).2 hr

/-- A driver is refused exactly if its name is taken. -/
theorem step_addDriver_eq_none {answer : D → E} :
    step bus s (.addDriver r answer) = none ↔ bus.driverName r ∈ s.drivers.map bus.driverName := by
  rw [step, Option.map_eq_none_iff, enter, ite_eq_left_iff]
  simp

/-- A step keeps the names on the bus different, and a device bound only to a driver that is there
and fits it. -/
theorem RegistryOk.step (hs : RegistryOk bus s) (h : step bus s a = some t) : RegistryOk bus t := by
  obtain ⟨u, hu, rfl⟩ := (step_eq_some hs).1 h
  obtain ⟨hok, -⟩ := (hs.enter hu).1.calls (exec_calls hs hu)
  cases a with
  | addDevice | addDriver => exact hok
  | removeDevice d =>
    refine ⟨hok.devices.sublist (List.erase_sublist.map _), hok.drivers, fun {d' r'} hbound => ?_⟩
    obtain ⟨hd', hrest⟩ := hok.bound hbound
    refine ⟨(List.mem_erase_of_ne ?_).2 hd', hrest⟩
    rintro rfl
    simp [leave, boundAfter] at hbound
  | removeDriver r =>
    refine ⟨hok.devices, hok.drivers.sublist (List.erase_sublist.map _), fun {d' r'} hbound => ?_⟩
    obtain ⟨hd', hr', hfits⟩ := hok.bound hbound
    refine ⟨hd', (List.mem_erase_of_ne ?_).2 hr', hfits⟩
    rintro rfl
    simp [leave, boundAfter] at hbound

/-- In every run the names on the bus differ, and a device is bound only to a driver that is there
and fits it. -/
theorem reachable_registryOk (h : exec (step bus) .init run = some s) : RegistryOk bus s :=
  exec_induction (P := fun _ s => RegistryOk bus s) .init (fun _ hs hstep => hs.step hstep) h

/-- A step leaves no device without a driver that fits it exactly if it is settling. -/
theorem settled_iff_settling (hs : RegistryOk bus s) (h : step bus s a = some t) :
    (Settled bus s → Settling bus s a → Settled bus t) ∧ (Settled bus t → Settling bus s a) := by
  obtain ⟨u, hu, rfl⟩ := (step_eq_some hs).1 h
  cases a with
  | addDevice d answer =>
    obtain ⟨hname, ⟨⟩⟩ := Option.ite_none_left_eq_some.1 hu
    have hne : ∀ d' ∈ s.devices, d' ≠ d := by
      rintro d' hd' rfl
      exact hname (List.mem_map_of_mem hd')
    have hgets : (s.drivers.find? fun r => bus.fits d r && bus.probe r (answer r)) ≠ none ↔
        ∃ r ∈ s.drivers, bus.fits d r ∧ bus.probe r (answer r) := by simp
    constructor
    · rintro hsettled hsettling d' hd' r hr hfits
      rcases List.mem_append.1 hd' with hd' | hd'
      · simpa [leave, boundAfter, hne d' hd'] using hsettled d' hd' r hr hfits
      · obtain rfl := List.mem_singleton.1 hd'
        simpa [leave, boundAfter] using hgets.2 (hsettling ⟨r, hr, hfits⟩)
    · rintro hsettled ⟨r, hr, hfits⟩
      refine hgets.1 ?_
      simpa [leave, boundAfter] using hsettled d (by simp [leave]) r hr hfits
  | removeDevice d =>
    obtain ⟨-, ⟨⟩⟩ := Option.ite_none_right_eq_some.1 hu
    refine ⟨fun hsettled _ d' hd' r hr hfits => ?_, fun _ => trivial⟩
    obtain ⟨hne, hd'⟩ := (hs.devices.of_map.mem_erase_iff).1 hd'
    simpa [leave, boundAfter, hne] using hsettled d' hd' r hr hfits
  | addDriver r answer =>
    obtain ⟨-, ⟨⟩⟩ := Option.ite_none_left_eq_some.1 hu
    constructor
    · rintro hsettled hsettling d hd q hq hfits hnone
      simp only [leave, boundAfter] at hnone
      split at hnone
      · cases hnone
      · next hnot =>
        rcases List.mem_append.1 hq with hq | hq
        · exact hsettled d hd q hq hfits hnone
        · obtain rfl := List.mem_singleton.1 hq
          exact hnot ⟨⟨hd, hnone, hfits⟩, hsettling d hd hnone hfits⟩
    · rintro hsettled d hd hnone hfits
      obtain ⟨-, -, hprobed⟩ : d ∈ s.devices ∧ bus.fits d r ∧ bus.probe r (answer d) := by
        simpa [leave, boundAfter, hnone] using hsettled d hd r (by simp [leave]) hfits
      exact hprobed
  | removeDriver r =>
    obtain ⟨-, ⟨⟩⟩ := Option.ite_none_right_eq_some.1 hu
    constructor
    · rintro hsettled hsettling d hd q hq hfits
      obtain ⟨hne, hq⟩ := (hs.drivers.of_map.mem_erase_iff).1 hq
      have hown : s.bound d ≠ some r := fun h => hsettling d hd h q hq hne hfits
      simpa [leave, boundAfter, hown] using hsettled d hd q hq hfits
    · rintro hsettled d hd hown q hq hne hfits
      have hq' : q ∈ s.drivers.erase r := (List.mem_erase_of_ne hne).2 hq
      simpa [leave, boundAfter, hown] using hsettled d hd q hq' hfits

/-- **When no device is without a driver that fits it**: in every run, exactly if all of its steps
are settling. -/
theorem settled_iff (h : exec (step bus) .init run = some s) :
    Throughout (step bus) .init (fun _ => Settled bus) run ↔
      Meets (step bus) .init (fun _ => Settling bus) run := by
  refine throughout_iff_meets nofun ?_ ?_ h
  · intro run s a t hrun hs ha hstep
    exact (settled_iff_settling (reachable_registryOk hrun) hstep).1 hs ha
  · intro run s a t hrun hstep ht
    exact (settled_iff_settling (reachable_registryOk hrun) hstep).2 ht

/-! ## What the drivers keep -/

/-- **The simulation rule**: a client that follows every call in order follows the calls of a run.
-/
theorem exec_trace {σ : Type*} {client : σ → Call D R E → Option σ} {P : (D → Option R) → σ → Prop}
    (call : ∀ {u x c}, RegistryOk bus u → P u.bound x → c.InOrder bus u →
      ∃ y, client x c = some y ∧ P (c.exec bus u).bound y)
    {x : σ} (hs : RegistryOk bus s) (hx : P s.bound x) (h : exec (step bus) s run = some t) :
    ∃ y, exec client x (trace bus s run) = some y ∧ P t.bound y := by
  refine (exec_log (R := fun u x => RegistryOk bus u ∧ P u.bound x) (K := fun _ => True) ?_ ⟨hs, hx⟩
    (by simp) h).imp fun y hy => ⟨hy.1, hy.2.2⟩
  rintro s a t x ⟨hs, hx⟩ - hstep
  obtain ⟨u, hu, hleave⟩ := Option.map_eq_some_iff.1 hstep
  obtain ⟨hok, hbound⟩ := hs.enter hu
  have hcalls := exec_calls hs hu
  obtain ⟨y, hy, hP⟩ := exec_client (f := fun c => [c]) (P := fun u x => P u.bound x)
    (by simpa using @call) hok (hbound ▸ hx) hcalls
  rw [← foldl_exec hcalls, ← leave_bound (a := a), hleave] at hP
  exact ⟨y, by simpa [hu] using hy, hs.step hstep, hP⟩

end Steps

end DriverCore
