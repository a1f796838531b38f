import Starrysky.Platform.Modules
import Starrysky.Miniature.Devices

/-!
# The drivers that register a `misc` device

`platform-5-misc` and the miniature driver each have one `struct miscdevice` for all of their
platform devices. `hello_probe` of the first returns the error of `misc_register`, so that its
device is registered exactly while the driver has a device (`misc_in_order`). That of the miniature
driver ignores it. The miniature driver is run here on the bus with its clients: it is the machine
of `Miniature.Devices` (`host_follows`), and where the device tree has no `led` node no probe finds
a device bound, so that its `misc` is in order if and only if no `misc_register` fails
(`host_registration_iff`).
-/

namespace Starrysky.Platform

open Transition DriverCore

/-! ## `hello_misc_device` -/

/-- What a call makes of the registration of `hello_misc_device`. It is registered only while it is
not, and deregistered only while it is. -/
def miscStep (registered : Bool) : Call Device Driver ℤ → Option Bool
  | .probe _ .platform5Misc ret => if registered then none else some (ret = 0)
  | .remove _ .platform5Misc => if registered then some false else none
  | .probe .. | .remove .. => some registered

section HelloMisc

variable {u s : Registry Device Driver} {c : Call Device Driver ℤ} {d : Device} {r : Driver}
  {registered : Bool} {run : List (Act Device Driver ℤ)}

/-- `hello_misc_device` is registered while `platform-5-misc` has a device. -/
def HasMisc (bound : Device → Option Driver) (registered : Bool) : Prop :=
  registered = true ↔ ∃ d, bound d = some .platform5Misc

/-- The devices of `platform-5-misc` are one device. -/
theorem misc_device_eq (hs : RegistryOk bus s) {d' : Device} (hd : d ∈ s.devices)
    (hd' : d' ∈ s.devices) (h : bus.fits d .platform5Misc) (h' : bus.fits d' .platform5Misc) :
    d = d' :=
  hs.device_ext hd hd' ((fits_misc_iff.1 h).trans (fits_misc_iff.1 h').symm)

/-- **Step lemma.** Every call in order is one that `misc_register` or `misc_deregister` allows. -/
theorem HasMisc.call (hs : RegistryOk bus s) (hm : HasMisc s.bound registered)
    (hc : c.InOrder bus s) :
    ∃ after, miscStep registered c = some after ∧ HasMisc (c.exec bus s).bound after := by
  have one {d d' : Device} (h : s.bound d = some .platform5Misc)
      (h' : s.bound d' = some .platform5Misc) : d = d' :=
    misc_device_eq hs (hs.bound h).1 (hs.bound h').1 (hs.bound h).2.2 (hs.bound h').2.2
  cases c with
  | probe d r ret =>
    obtain ⟨hd, -, hnone, hfits⟩ := id hc
    by_cases hr : r = .platform5Misc
    · subst hr
      have hother : ∀ d', s.bound d' ≠ some .platform5Misc := by
        intro d' hd'
        obtain ⟨hmem, -, hfits'⟩ := hs.bound hd'
        obtain rfl := misc_device_eq hs hd hmem hfits hfits'
        exact Option.some_ne_none _ (hd'.symm.trans hnone)
      have hunreg : registered = false := Bool.eq_false_iff.2 fun h => (hm.1 h).elim hother
      have hprobe : bus.probe .platform5Misc ret ↔ ret = 0 := by simp [probe_iff]
      refine ⟨ret = 0, by simp [miscStep, hunreg], ?_⟩
      by_cases hret : ret = 0
      · exact iff_of_true (by simpa) ⟨d, by simp [hprobe.2 hret]⟩
      · exact iff_of_false (by simpa) fun ⟨d', hd'⟩ => hother d' (by simpa [hprobe, hret] using hd')
    · refine ⟨registered, by cases r <;> simp_all [miscStep], hm.trans (exists_congr fun d' => ?_)⟩
      exact (Call.exec_bound_of_ne hc hr).symm
  | remove d r =>
    have hbound : s.bound d = some r := hc
    by_cases hr : r = .platform5Misc
    · subst hr
      refine ⟨false, by simp [miscStep, hm.2 ⟨d, hbound⟩], iff_of_false (by simp) ?_⟩
      rintro ⟨d', hd'⟩
      rw [Call.exec_remove_bound] at hd'
      obtain ⟨hne, hd'⟩ := Option.ite_none_left_eq_some.1 hd'
      exact hne (one hd' hbound)
    · refine ⟨registered, by cases r <;> simp_all [miscStep], hm.trans (exists_congr fun d' => ?_)⟩
      exact (Call.exec_bound_of_ne hc hr).symm

/-- **`platform-5-misc` keeps the registration of its device in order.** In every run of the bus,
with failing `misc_register`s too: `hello_misc_device` is registered only while it is not and
deregistered only while it is, and at the end it is registered exactly if the driver has a device.
-/
theorem misc_in_order (run : List (Act Device Driver ℤ)) (s : Registry Device Driver)
    (h : exec (step bus) .init run = some s) :
    ∃ registered, exec miscStep false (trace bus .init run) = some registered ∧
      (registered = true ↔ ∃ d, s.bound d = some .platform5Misc) :=
  exec_trace (P := HasMisc) (fun hs hm hc => hm.call hs hc) .init
    (iff_of_false (by simp) (by simp [Registry.init])) h

/-- The first probe of `platform-5-misc` fails, and the one after it is loaded again does not. -/
theorem misc_in_order_failing : (exec miscStep false (trace bus .init
    [.addDriver .platform5Misc (fun _ => 0), .addDevice .platform1Byname (fun _ => -16),
      .removeDriver .platform5Misc, .addDriver .platform5Misc (fun _ => 0)])).isSome := by
  obtain ⟨s, hs⟩ : ∃ s, exec (step bus) .init
    [.addDriver .platform5Misc (fun _ => 0), .addDevice .platform1Byname (fun _ => -16),
      .removeDriver .platform5Misc, .addDriver .platform5Misc (fun _ => 0)] = some s := ⟨_, rfl⟩
  obtain ⟨registered, hregistered, -⟩ := misc_in_order _ s hs
  rw [hregistered]
  rfl

end HelloMisc

/-! ## The miniature driver and its clients on the bus -/

open Miniature (Sys Use PlatformAct platformStep)

/-- The bus with the miniature driver and its clients. -/
structure Host (F T : Type) where
  registry : Registry Device Driver
  sys : Sys Device F T

inductive HostAct (F T : Type) where
  | core (a : Act Device Driver ℤ)
  | use (u : Use F T)

variable {F T : Type}

/-- Nothing is loaded. -/
def Host.init : Host F T := { registry := .init, sys := .init }

/-- What a call does to the miniature driver: `hello_probe`, or `hello_remove`. -/
def callSys (sys : Sys Device F T) : Call Device Driver ℤ → Sys Device F T
  | .probe d .miniatureDriver ret => { sys with mem := sys.mem.probe d (ret = 0) }
  | .remove _ .miniatureDriver => { sys with mem := { sys.mem with registered := false } }
  | .probe .. | .remove .. => sys

/-- A call, as an action of the miniature driver with its devices. -/
def miniatureActs : Call Device Driver ℤ → List (PlatformAct Device F T)
  | .probe d .miniatureDriver ret => [.probe d (ret = 0)]
  | .remove d .miniatureDriver => [.remove d]
  | .probe .. | .remove .. => []

/-- The actions of the miniature driver in a step. -/
def HostAct.acts (s : Host F T) : HostAct F T → List (PlatformAct Device F T)
  | .core a =>
    (enter bus s.registry a).elim [] fun u => (calls bus u a).flatMap miniatureActs
  | .use u => [.use u]

/-- The step adds no `led` node. -/
def HostAct.Modular : HostAct F T → Prop
  | .core (.addDevice d _) => ¬ d.IsLed
  | .core _ | .use _ => True

/-- A probe finds no device bound, but where there are `led` nodes. -/
def ProbesAlone (led : Prop) (x : Miniature.Platform Device F T) : PlatformAct Device F T → Prop
  | .probe .. => led ∨ x.bound = ∅
  | .remove _ | .use _ => True

/-- The miniature driver in the state `x` has the devices that the bus gave it. -/
structure Serves (led : Prop) (u : Registry Device Driver) (x : Miniature.Platform Device F T) :
    Prop where
  led : ¬ led → ∀ d ∈ u.devices, ¬ d.IsLed
  bound : ∀ d, d ∈ x.bound ↔ u.bound d = some .miniatureDriver

variable {u : Registry Device Driver} {c : Call Device Driver ℤ} {cs : List (Call Device Driver ℤ)}
  {x y : Miniature.Platform Device F T} {s t : Host F T} {a : HostAct F T}
  {run : List (HostAct F T)} {led : Prop}

/-- The devices while the calls are made. -/
theorem Serves.enter {w : Registry Device Driver} {act : Act Device Driver ℤ}
    (hx : Serves led u x) (hu : RegistryOk bus u)
    (hact : ¬ led → (HostAct.core act : HostAct F T).Modular)
    (h : enter bus u act = some w) : Serves led w x := by
  refine ⟨fun hnot d hd => ?_, fun d => by rw [(hu.enter h).2]; exact hx.bound d⟩
  rcases mem_devices_of_enter h hd with hd | ⟨ret, rfl⟩
  · exact hx.led hnot d hd
  · exact hact hnot

variable [DecidableEq F] [DecidableEq T]

/-- A step of the driver core, with the calls that it makes, or of a client. -/
def hostStep (s : Host F T) : HostAct F T → Option (Host F T)
  | .core a => (enter bus s.registry a).map fun u =>
    { registry := leave ((calls bus u a).foldl (Call.exec bus) u) a
      sys := (calls bus u a).foldl callSys s.sys }
  | .use u => (s.sys.use u).map fun sys => { s with sys }

/-- A call that the driver core makes is a call that the driver follows. -/
theorem Serves.call [∀ x a, Decidable (ProbesAlone (F := F) (T := T) led x a)]
    (hu : RegistryOk bus u) (hx : Serves led u x) (hc : c.InOrder bus u) :
    ∃ y, exec (fun x a => if ProbesAlone led x a then platformStep x a else none) x
        (miniatureActs c) = some y ∧ Serves led (c.exec bus u) y := by
  by_cases hr : c.driver = .miniatureDriver
  · cases c with
    | probe d r ret =>
      obtain rfl : r = .miniatureDriver := hr
      obtain ⟨hd, -, hnone, hfits⟩ := hc
      have hfree : d ∉ x.bound := by simp [hx.bound d, hnone]
      have halone : led ∨ x.bound = ∅ := by
        refine or_iff_not_imp_left.2 fun hnot => Finset.eq_empty_of_forall_notMem fun d' hd' => ?_
        obtain ⟨hmem, -, hfits'⟩ := hu.bound ((hx.bound d').1 hd')
        obtain rfl := hu.device_ext hd hmem
          (deviceName_eq_of_fits hfits hfits' (hx.led hnot d hd) (hx.led hnot d' hmem))
        exact hfree hd'
      have hprobe : bus.probe .miniatureDriver ret := probe_iff.2 nofun
      refine ⟨{ sys := callSys x.sys (.probe d .miniatureDriver ret), bound := insert d x.bound },
        by simp [miniatureActs, ProbesAlone, halone, platformStep, hfree, callSys],
        by simpa using hx.led, fun d' => ?_⟩
      by_cases hd' : d' = d
      · simp [hd', hprobe]
      · simp [hd', hx.bound d']
    | remove d r =>
      obtain rfl : r = .miniatureDriver := hr
      have hd : d ∈ x.bound := (hx.bound d).2 hc
      refine ⟨{ sys := callSys x.sys (.remove d .miniatureDriver), bound := x.bound.erase d },
        by simp [miniatureActs, ProbesAlone, platformStep, hd, callSys], hx.led, fun d' => ?_⟩
      simp [hx.bound d']
  · refine ⟨x, ?_, by simpa using hx.led,
      fun d => (hx.bound d).trans (Call.exec_bound_of_ne hc hr).symm⟩
    cases c with
    | probe d r ret | remove d r =>
      cases r with
      | miniatureDriver => exact absurd rfl hr
      | platform1Byname | platform2Pthread | platform3Idtable | platform4OfMatchTable
      | platform5Misc => rfl

/-- The driver follows a call by `hello_probe` or `hello_remove`. -/
theorem callSys_eq (h : exec platformStep x (miniatureActs c) = some y) :
    callSys x.sys c = y.sys := by
  cases c with
  | probe d r ret =>
    cases r with
    | miniatureDriver =>
      obtain ⟨z, hz, ⟨⟩⟩ := Option.bind_eq_some_iff.1 h
      obtain ⟨-, ⟨⟩⟩ := Option.ite_none_right_eq_some.1 hz
      rfl
    | platform1Byname | platform2Pthread | platform3Idtable | platform4OfMatchTable
    | platform5Misc => cases h; rfl
  | remove d r =>
    cases r with
    | miniatureDriver =>
      obtain ⟨z, hz, ⟨⟩⟩ := Option.bind_eq_some_iff.1 h
      obtain ⟨-, ⟨⟩⟩ := Option.ite_none_right_eq_some.1 hz
      rfl
    | platform1Byname | platform2Pthread | platform3Idtable | platform4OfMatchTable
    | platform5Misc => cases h; rfl

theorem foldl_callSys (h : exec platformStep x (cs.flatMap miniatureActs) = some y) :
    cs.foldl callSys x.sys = y.sys := by
  rw [← exec_flatMap] at h
  exact foldl_of_exec (g := Miniature.Platform.sys) callSys_eq h

/-- The miniature driver in the state `x` is the one on the bus. -/
structure Follows (led : Prop) (s : Host F T) (x : Miniature.Platform Device F T) : Prop where
  registry : RegistryOk bus s.registry
  serves : Serves led s.registry x
  sys : x.sys = s.sys

/-- What a step on the bus makes of the miniature driver, the calls that it stands for make of the
driver alone. -/
theorem Follows.step [∀ x a, Decidable (ProbesAlone (F := F) (T := T) led x a)]
    (hx : Follows led s x) (ha : ¬ led → a.Modular) (h : hostStep s a = some t) :
    ∃ y, exec (fun x a => if ProbesAlone led x a then platformStep x a else none) x (a.acts s) =
      some y ∧ Follows led t y := by
  cases a with
  | core a =>
    obtain ⟨u, hu, ⟨⟩⟩ := Option.map_eq_some_iff.1 h
    have hcalls := exec_calls hx.registry hu
    obtain ⟨y, hy, hled, hbound⟩ := exec_client (P := Serves led) Serves.call
      (hx.registry.enter hu).1 (hx.serves.enter hx.registry ha hu) hcalls
    have hstep : step bus s.registry a = some _ := Option.map_eq_some_iff.2 ⟨u, hu, rfl⟩
    refine ⟨y, by simpa [HostAct.acts, hu] using hy, hx.registry.step hstep, ⟨?_, ?_⟩, ?_⟩
    · rw [foldl_exec hcalls]
      exact fun hnot d hd => hled hnot d (mem_devices_of_leave hd)
    · rw [foldl_exec hcalls]
      exact fun d => by simpa using hbound d
    · rw [← foldl_callSys (exec_guard.1 hy).1, hx.sys]
  | use u =>
    obtain ⟨sys, hsys, ⟨⟩⟩ := Option.map_eq_some_iff.1 h
    refine ⟨{ x with sys }, ?_, hx.registry, ⟨hx.serves.led, hx.serves.bound⟩, rfl⟩
    simp [HostAct.acts, ProbesAlone, platformStep, hx.sys, hsys]

/-- The actions of the miniature driver in a run. -/
def hostActs (run : List (HostAct F T)) : List (PlatformAct Device F T) :=
  log hostStep (fun s a => a.acts s) .init run

/-- **Run lemma.** The miniature driver on the bus runs as it does with any number of devices. -/
theorem host_follows (led : Prop) [∀ x a, Decidable (ProbesAlone (F := F) (T := T) led x a)]
    (hled : ¬ led → ∀ a ∈ run, a.Modular) (h : exec hostStep .init run = some s) :
    ∃ y, exec platformStep .init (hostActs run) = some y ∧
      Meets platformStep .init (fun _ => ProbesAlone led) (hostActs run) ∧ Follows led s y := by
  have hinit : Follows led (Host.init : Host F T) .init :=
    ⟨.init, ⟨fun _ d hd => absurd hd List.not_mem_nil,
      fun d => by simp [Miniature.Platform.init, Host.init, Registry.init]⟩, rfl⟩
  obtain ⟨y, hy, hfollows⟩ := exec_log (R := Follows led) (K := fun a => ¬ led → a.Modular)
    Follows.step hinit (fun a ha hnot => hled hnot a ha) h
  obtain ⟨hexec, hmeets⟩ := exec_guard.1 hy
  exact ⟨y, hexec, hmeets, hfollows⟩

section Alone

variable {acts : List (PlatformAct Device F T)}

/-- Where no probe finds a device bound, the devices come one at a time if no `misc_register` fails.
-/
theorem alone_of_probesAlone (h : Meets platformStep .init (fun _ => ProbesAlone False) acts)
    (hok : ∀ d, .probe d false ∉ acts) : Meets platformStep .init Miniature.Alone acts := by
  rintro pre a post x rfl hx
  cases a with
  | probe d ok =>
    have hempty : x.bound = ∅ := (h pre _ post x rfl hx).resolve_left id
    cases ok with
    | true => exact ⟨hempty, rfl⟩
    | false => exact absurd (by simp) (hok d)
  | remove | use => trivial

/-- Where no probe finds a device bound, `misc` is in order exactly if no `misc_register` fails. -/
theorem in_order_iff (h : Meets platformStep .init (fun _ => ProbesAlone False) acts)
    (hexec : exec platformStep .init acts = some y) :
    Meets platformStep .init Miniature.Calls acts ∧
        Throughout platformStep .init Miniature.Registered acts ↔
      ∀ d, .probe d false ∉ acts := by
  constructor
  · rintro ⟨hcalls, hregistered⟩ d hd
    obtain ⟨pre, post, rfl⟩ := List.append_of_mem hd
    obtain ⟨x, hx, -⟩ := exec_split hexec
    obtain ⟨z, hstep, hz⟩ := exec_taken hexec hx
    have halone := Miniature.alone_of_calls (hcalls pre _ post x rfl hx)
      (hregistered pre _ x rfl hx) (hregistered (pre ++ [.probe d false]) post z (by simp) hz)
      (Miniature.steps_of_platformStep hstep)
    exact Bool.false_ne_true halone.2
  · intro hok
    have halone := alone_of_probesAlone h hok
    refine ⟨?_, ?_⟩
    · rintro pre a post x rfl hx
      obtain ⟨z, hstep, -⟩ := exec_taken hexec hx
      exact (halone pre a post x rfl hx).calls (Miniature.oneBound_of_alone hx halone.left)
        (Miniature.steps_of_platformStep hstep)
    · rintro pre post x rfl hx
      exact (Miniature.oneBound_of_alone hx halone.left).registered.2

end Alone

/-- **The miniature driver on the bus.** In every run of the bus with clients: the driver is called
as the driver with any number of devices is, and ends in the same state, with the devices that the
bus gave it; and if no `led` node is there, its `misc` is registered only while it is not,
deregistered only while it is, and registered in every state with a bound device, if and only if
every `misc_register` succeeds. -/
theorem host_registration_iff {F T : Type} [DecidableEq F] [DecidableEq T]
    (run : List (HostAct F T)) (s : Host F T) (h : exec hostStep .init run = some s) :
    (∃ y, exec platformStep .init (hostActs run) = some y ∧ y.sys = s.sys ∧
        ∀ d, d ∈ y.bound ↔ s.registry.bound d = some .miniatureDriver) ∧
      ((∀ a ∈ run, a.Modular) →
        (Meets platformStep .init Miniature.Calls (hostActs run) ∧
            Throughout platformStep .init Miniature.Registered (hostActs run) ↔
          ∀ d, .probe d false ∉ hostActs run)) := by
  classical
  constructor
  · obtain ⟨y, hexec, -, hy⟩ := host_follows True (fun hnot => absurd trivial hnot) h
    exact ⟨y, hexec, hy.sys, hy.serves.bound⟩
  · intro hmodular
    obtain ⟨y, hexec, hprobes, -⟩ := host_follows False (fun _ => hmodular) h
    exact in_order_iff hprobes hexec

/-- The device of `platform_3_idtable` is taken away and that of the miniature driver comes, while
a file is open. -/
theorem host_registration_two_modules :
    Meets platformStep .init Miniature.Calls (hostActs (F := Unit) (T := Unit)
        [.core (.addDevice .platform3Idtable fun _ => 0),
          .core (.addDriver .miniatureDriver fun _ => 0), .use (.opens ()),
          .core (.removeDevice .platform3Idtable),
          .core (.addDevice .miniatureDriver fun _ => 0)]) ∧
      Throughout platformStep .init Miniature.Registered (hostActs (F := Unit) (T := Unit)
        [.core (.addDevice .platform3Idtable fun _ => 0),
          .core (.addDriver .miniatureDriver fun _ => 0), .use (.opens ()),
          .core (.removeDevice .platform3Idtable),
          .core (.addDevice .miniatureDriver fun _ => 0)]) := by
  obtain ⟨s, hs⟩ : ∃ s, exec hostStep (Host.init : Host Unit Unit)
    [.core (.addDevice .platform3Idtable fun _ => 0),
      .core (.addDriver .miniatureDriver fun _ => 0), .use (.opens ()),
      .core (.removeDevice .platform3Idtable), .core (.addDevice .miniatureDriver fun _ => 0)] =
    some s := ⟨_, rfl⟩
  refine ((host_registration_iff _ s hs).2 ?_).2 ?_
  · simp [HostAct.Modular, Device.IsLed, devDevice]
  · intro d
    cases d <;> decide +kernel

end Starrysky.Platform
