import Starrysky.Lib.DriverCore

/-!
# The modules of the platform bus

The driver modules of `platform-1-byname`, `platform_2_pthread`, `platform_3_idtable`,
`platform_4_of_match_table`, `platform-5-misc` and `miniature_driver`, the device modules beside
them and the `led` nodes of the device tree, on one bus: any of them is loaded and unloaded in any
order. Five of the drivers have the name `mali-rtc`, two of which have tables and do not match the
device of that name. So no two devices of the modules have a driver at a time
(`device_eq_of_bound`), and a device that a loaded driver matches can only be without one when
`misc_register` failed or when one of the two drivers of the `led` nodes went while the other was
there (`bound_iff`).
-/

namespace Starrysky.Platform

open Transition DriverCore

/-- What a `struct platform_driver` is matched by. The empty entry that ends a table is left out,
and the `id_table` is `none` for NULL. -/
structure PlatformDriver where
  name : String
  ofMatchTable : List String
  idTable : Option (List String)

/-- What a `struct platform_device` is matched by. The devices of the modules have the `id` -1, so
that their name is the name on the bus, and no node of the device tree. -/
structure PlatformDevice where
  name : String
  compatible : Option String

/-- The match of the platform bus, in the order of priority that the sources have in a comment: the
`of_match_table`, the `id_table`, and the name where the driver has no `id_table`. -/
def platformMatch (dev : PlatformDevice) (drv : PlatformDriver) : Bool :=
  dev.compatible.any (· ∈ drv.ofMatchTable) ||
    match drv.idTable with
    | some ids => dev.name ∈ ids
    | none => dev.name = drv.name

/-- `s3c_rtc_driver_ids`, and `rtc_driver_ids` of the miniature driver -/
def rtcDriverIds : List String := ["s3c2410-rtc", "s3c2416-rtc", "s3c2443-rtc", "s3c64xx-rtc"]

def ledOfMatch : List String := ["s3c,led0", "s3c,led1"]

/-- The driver modules, by their directories. -/
inductive Driver where
  | platform1Byname
  | platform2Pthread
  | platform3Idtable
  | platform4OfMatchTable
  | platform5Misc
  | miniatureDriver
  deriving DecidableEq

/-- `hello_driver` of each, which is `led_driver` in `platform_4_of_match_table`. -/
def helloDriver : Driver → PlatformDriver
  | .platform1Byname | .platform2Pthread | .platform5Misc =>
    { name := "mali-rtc", ofMatchTable := [], idTable := none }
  | .platform3Idtable => { name := "mali-rtc", ofMatchTable := [], idTable := some rtcDriverIds }
  | .platform4OfMatchTable => { name := "led33", ofMatchTable := ledOfMatch, idTable := none }
  | .miniatureDriver =>
    { name := "mali-rtc", ofMatchTable := ledOfMatch, idTable := some rtcDriverIds }

/-- The device modules `dev0.c`, by their directories, and the nodes of the device tree. -/
inductive Device where
  | platform1Byname
  | platform2Pthread
  | platform3Idtable
  | platform5Misc
  | miniatureDriver
  | led0
  | led1
  deriving DecidableEq

/-- `dev_device` of each, which is `s3c_device_rtc` in `platform_3_idtable`. -/
def devDevice : Device → PlatformDevice
  | .platform1Byname | .platform2Pthread | .platform5Misc =>
    { name := "mali-rtc", compatible := none }
  | .platform3Idtable | .miniatureDriver => { name := "s3c2410-rtc", compatible := none }
  | .led0 => { name := "led@0x250E0000", compatible := some "s3c,led0" }
  | .led1 => { name := "led@0x25130000", compatible := some "s3c,led1" }

/-- `hello_probe` by what it returns when its `misc_register`, if it has one, returns `ret`. The
probe of `platform-5-misc` returns an error of `misc_register`, and that of the miniature driver
does not look at it. -/
def helloProbe : Driver → ℤ → ℤ
  | .platform5Misc, ret => if 0 ≠ ret then ret else 0
  | .platform1Byname, _ | .platform2Pthread, _ | .platform3Idtable, _ | .platform4OfMatchTable, _
  | .miniatureDriver, _ => 0

def bus : Bus Device Driver String ℤ where
  deviceName d := (devDevice d).name
  driverName r := (helloDriver r).name
  fits d r := platformMatch (devDevice d) (helloDriver r)
  probe r ret := helloProbe r ret = 0

/-- A node of the device tree. -/
def Device.IsLed (d : Device) : Prop := (devDevice d).compatible ≠ none

instance : DecidablePred Device.IsLed := fun _ => inferInstanceAs (Decidable (_ ≠ _))

/-- A device that a loaded driver matches has a driver. -/
def Bound (_ : List (Act Device Driver ℤ)) (s : Registry Device Driver) : Prop := Settled bus s

/-- `misc_register` succeeds in the probe of `platform-5-misc`, and neither of the two drivers of
the `led` nodes goes while it has one of them and the other is there. -/
def Keeping (_ : List (Act Device Driver ℤ)) (s : Registry Device Driver) :
    Act Device Driver ℤ → Prop
  | .addDevice d ret =>
    bus.deviceName d = "mali-rtc" → .platform5Misc ∈ s.drivers → ret .platform5Misc = 0
  | .removeDevice _ => True
  | .addDriver r ret => r = .platform5Misc →
    ∀ d ∈ s.devices, bus.deviceName d = "mali-rtc" → ret d = 0
  | .removeDriver r =>
    r = .platform4OfMatchTable ∧ .miniatureDriver ∈ s.drivers ∨
      r = .miniatureDriver ∧ .platform4OfMatchTable ∈ s.drivers →
    ∀ d ∈ s.devices, d.IsLed → s.bound d ≠ some r

variable {s t : Registry Device Driver} {a : Act Device Driver ℤ} {d d' : Device} {r r' : Driver}
  {run : List (Act Device Driver ℤ)}

/-! ## What matches -/

/-- The drivers that match a device. -/
theorem fits_iff : bus.fits d r ↔
    bus.deviceName d = "mali-rtc" ∧
        (r = .platform1Byname ∨ r = .platform2Pthread ∨ r = .platform5Misc) ∨
      bus.deviceName d = "s3c2410-rtc" ∧ (r = .platform3Idtable ∨ r = .miniatureDriver) ∨
      d.IsLed ∧ (r = .platform4OfMatchTable ∨ r = .miniatureDriver) := by
  cases d <;> cases r <;> decide

/-- The driver of a device of a module is one of those named `mali-rtc`. -/
theorem driverName_of_fits (h : bus.fits d r) (hd : ¬ d.IsLed) : bus.driverName r = "mali-rtc" := by
  rcases fits_iff.1 h with ⟨-, rfl | rfl | rfl⟩ | ⟨-, rfl | rfl⟩ | ⟨hled, -⟩
  · rfl
  · rfl
  · rfl
  · rfl
  · rfl
  · exact absurd hled hd

/-- The devices of the modules that one driver matches have one name. -/
theorem deviceName_eq_of_fits (h : bus.fits d r) (h' : bus.fits d' r) (hd : ¬ d.IsLed)
    (hd' : ¬ d'.IsLed) : bus.deviceName d = bus.deviceName d' := by
  rcases fits_iff.1 h with ⟨hname, hr⟩ | ⟨hname, hr⟩ | ⟨hled, -⟩
  · rcases fits_iff.1 h' with ⟨hname', -⟩ | ⟨-, hr'⟩ | ⟨hled, -⟩
    · rw [hname, hname']
    · rcases hr with rfl | rfl | rfl <;> simp at hr'
    · exact absurd hled hd'
  · rcases fits_iff.1 h' with ⟨-, hr'⟩ | ⟨hname', -⟩ | ⟨hled, -⟩
    · rcases hr with rfl | rfl <;> simp at hr'
    · rw [hname, hname']
    · exact absurd hled hd'
  · exact absurd hled hd

/-- Two drivers of one device of a module are one driver. -/
theorem driver_eq_of_fits (hs : RegistryOk bus s) (h : bus.fits d r) (h' : bus.fits d r')
    (hr : r ∈ s.drivers) (hr' : r' ∈ s.drivers) (hd : ¬ d.IsLed) : r = r' :=
  hs.driver_ext hr hr' ((driverName_of_fits h hd).trans (driverName_of_fits h' hd).symm)

/-- Two devices of modules that have a driver are one device. -/
theorem device_eq_of_bound (hs : RegistryOk bus s) (hd : ¬ d.IsLed) (hd' : ¬ d'.IsLed)
    (hbound : s.bound d = some r) (hbound' : s.bound d' = some r') : d = d' := by
  obtain ⟨hmem, hr, hfits⟩ := hs.bound hbound
  obtain ⟨hmem', hr', hfits'⟩ := hs.bound hbound'
  obtain rfl : r = r' := hs.driver_ext hr hr'
    ((driverName_of_fits hfits hd).trans (driverName_of_fits hfits' hd').symm)
  exact hs.device_ext hmem hmem' (deviceName_eq_of_fits hfits hfits' hd hd')

/-! ## Which devices have a driver -/

/-- A probe fails only in `platform-5-misc`. -/
theorem probe_iff {ret : ℤ} : bus.probe r ret ↔ (r = .platform5Misc → ret = 0) := by
  cases r with
  | platform5Misc => simp [bus, helloProbe, eq_comm]
  | platform1Byname | platform2Pthread | platform3Idtable | platform4OfMatchTable
  | miniatureDriver => simp [bus, helloProbe]

theorem not_isLed_of_name (h : bus.deviceName d = "mali-rtc") : ¬ d.IsLed := by
  cases d with
  | led0 | led1 => exact absurd h (by decide)
  | platform1Byname | platform2Pthread | platform3Idtable | platform5Misc | miniatureDriver =>
    decide

theorem fits_misc_iff : bus.fits d .platform5Misc ↔ bus.deviceName d = "mali-rtc" := by
  simp [fits_iff]

theorem fits_led_iff (h : d.IsLed) :
    bus.fits d r ↔ r = .platform4OfMatchTable ∨ r = .miniatureDriver := by
  cases d with
  | led0 | led1 => cases r <;> decide
  | platform1Byname | platform2Pthread | platform3Idtable | platform5Misc | miniatureDriver =>
    exact absurd h (by decide)

/-- A step that is taken is settling exactly if it keeps. -/
theorem settling_iff (hs : RegistryOk bus s) (h : step bus s a = some t) :
    Settling bus s a ↔ Keeping run s a := by
  obtain ⟨u, hu, -⟩ := (step_eq_some hs).1 h
  cases a with
  | addDevice d ret =>
    constructor
    · intro hsettling hname hr
      obtain ⟨q, hq, hfits, hprobe⟩ := hsettling ⟨_, hr, fits_misc_iff.2 hname⟩
      obtain rfl :=
        driver_eq_of_fits hs hfits (fits_misc_iff.2 hname) hq hr (not_isLed_of_name hname)
      exact probe_iff.1 hprobe rfl
    · rintro hkeeping ⟨r, hr, hfits⟩
      refine ⟨r, hr, hfits, probe_iff.2 ?_⟩
      rintro rfl
      exact hkeeping (fits_misc_iff.1 hfits) hr
  | removeDevice d => exact Iff.rfl
  | addDriver r ret =>
    obtain ⟨hname, -⟩ := Option.ite_none_left_eq_some.1 hu
    constructor
    · rintro hsettling rfl d hd hdev
      have hfits := fits_misc_iff.2 hdev
      refine probe_iff.1 (hsettling d hd ?_ hfits) rfl
      refine Option.eq_none_iff_forall_ne_some.2 fun q hq => ?_
      obtain ⟨-, hq, hfits'⟩ := hs.bound hq
      refine hname (List.mem_map.2 ⟨q, hq, ?_⟩)
      exact (driverName_of_fits hfits' (not_isLed_of_name hdev)).trans rfl
    · rintro hkeeping d hd - hfits
      refine probe_iff.2 ?_
      rintro rfl
      exact hkeeping rfl d hd (fits_misc_iff.1 hfits)
  | removeDriver r =>
    constructor
    · rintro hsettling (⟨rfl, hq⟩ | ⟨rfl, hq⟩) d hd hled hbound
      · exact hsettling d hd hbound _ hq (by decide) (by simp [fits_iff, hled])
      · exact hsettling d hd hbound _ hq (by decide) (by simp [fits_iff, hled])
    · rintro hkeeping d hd hbound q hq hne hfits
      obtain ⟨-, hr, hfits'⟩ := hs.bound hbound
      by_cases hled : d.IsLed
      · rcases (fits_led_iff hled).1 hfits with rfl | rfl
        · have hr' := ((fits_led_iff hled).1 hfits').resolve_left hne.symm
          exact hkeeping (.inr ⟨hr', hq⟩) d hd hled hbound
        · have hr' := ((fits_led_iff hled).1 hfits').resolve_right hne.symm
          exact hkeeping (.inl ⟨hr', hq⟩) d hd hled hbound
      · exact hne (driver_eq_of_fits hs hfits hfits' hq hr hled)

/-- **Which devices have a driver.** In every run of the bus: at most one of the devices of the
modules has a driver at a time; and no device that a loaded driver matches is ever without one if
and only if `misc_register` succeeds in every probe of `platform-5-misc` and neither driver of the
`led` nodes goes while it has one of them and the other is there. -/
theorem bound_iff (run : List (Act Device Driver ℤ)) (s : Registry Device Driver)
    (h : exec (step bus) .init run = some s) :
    (∀ d d', ¬ d.IsLed → ¬ d'.IsLed → s.bound d ≠ none → s.bound d' ≠ none → d = d') ∧
      (Throughout (step bus) .init Bound run ↔ Meets (step bus) .init Keeping run) := by
  constructor
  · intro d d' hd hd' hbound hbound'
    obtain ⟨r, hr⟩ := Option.ne_none_iff_exists'.1 hbound
    obtain ⟨r', hr'⟩ := Option.ne_none_iff_exists'.1 hbound'
    exact device_eq_of_bound (reachable_registryOk h) hd hd' hr hr'
  · refine (settled_iff h).trans (meets_iff_meets (I := fun _ _ => True) trivial ?_ ?_ ?_ h)
    · exact fun _ _ _ _ => trivial
    · exact fun hrun _ ha hstep => (settling_iff (reachable_registryOk hrun) hstep).2 ha
    · exact fun hrun hstep ha => (settling_iff (reachable_registryOk hrun) hstep).1 ha

instance : Decidable (Keeping run s a) :=
  match a with
  | .addDevice .. | .addDriver .. | .removeDriver _ => inferInstanceAs (Decidable (_ → _))
  | .removeDevice _ => .isTrue trivial

/-- The miniature driver leaves the `led` node to the driver that has it, and the device named
`mali-rtc` waits for `platform-5-misc`. -/
theorem bound_of_each : Throughout (step bus) .init Bound
    [.addDevice .led0 (fun _ => 0), .addDriver .platform4OfMatchTable (fun _ => 0),
      .addDevice .platform2Pthread (fun _ => 0), .addDriver .miniatureDriver (fun _ => 0),
      .addDevice .platform3Idtable (fun _ => 0), .removeDriver .miniatureDriver,
      .addDriver .platform5Misc (fun _ => 0)] := by
  obtain ⟨s, hs⟩ : ∃ s, exec (step bus) .init
    [.addDevice .led0 (fun _ => 0), .addDriver .platform4OfMatchTable (fun _ => 0),
      .addDevice .platform2Pthread (fun _ => 0), .addDriver .miniatureDriver (fun _ => 0),
      .addDevice .platform3Idtable (fun _ => 0), .removeDriver .miniatureDriver,
      .addDriver .platform5Misc (fun _ => 0)] = some s := ⟨_, rfl⟩
  exact (bound_iff _ s hs).2.2 (by decide +kernel)

end Starrysky.Platform
