import Starrysky.Lib.Lifetime
import Starrysky.Miniature.Reached

/-!
# The memory of any number of devices

`Lifetime` is about the one `mini_device` of one platform device. With any number of devices, each
probe allocates an object that belongs to its device, and the driver core frees it after the
`hello_remove` of that device, while files, threads and timers of the other devices go on: the
files lead to the object of the latest probe, threads in a file operation to the one that was it
when they began, and every callback writes the object of `minidev`. `devres_iff` says when nothing
that a run has freed can be used any more, and that it is enough to probe and to free while no file
is open; to free while no file is open is not (`not_safe_probe_while_open`).
-/

namespace Starrysky.Miniature

open Transition

/-- The driver with its devices. `removed` are those whose `hello_remove` has run and whose memory
the driver core has yet to free, and `freed` are the objects that it has freed. -/
structure Managed (D F T : Type) where
  platform : Platform D F T
  removed : Finset D
  freed : Finset ℕ

inductive ManagedAct (D F T : Type) where
  | platform (a : PlatformAct D F T)
  /-- the driver core frees what `devm_kzalloc` allocated for the device -/
  | devmFree (d : D)
  deriving DecidableEq

variable {D F T : Type}

abbrev Managed.mem (s : Managed D F T) : Memory D := s.platform.sys.mem

/-- The module is loaded. -/
def Managed.init : Managed D F T := { platform := .init, removed := ∅, freed := ∅ }

section Step

variable [DecidableEq D] [DecidableEq F] [DecidableEq T]

/-- A step of the system. The driver core binds a removed device again only when it has freed what
the device had. -/
def managedStep (s : Managed D F T) : ManagedAct D F T → Option (Managed D F T)
  | .platform (.probe d ok) =>
    if d ∉ s.removed then
      (platformStep s.platform (.probe d ok)).map fun platform => { s with platform }
    else none
  | .platform (.remove d) =>
    (platformStep s.platform (.remove d)).map fun platform =>
      { s with platform, removed := insert d s.removed }
  | .platform (.use u) =>
    (platformStep s.platform (.use u)).map fun platform => { s with platform }
  | .devmFree d =>
    if d ∈ s.removed then
      some { s with
        removed := s.removed.erase d
        freed := (s.mem.pdata d).elim s.freed fun o => insert o s.freed }
    else none

/-- The objects that a step uses: `hello_probe` fills a new one, and `hello_remove` reads the one of
its device. -/
def Managed.UsesObject (s : Managed D F T) (o : ℕ) : ManagedAct D F T → Prop
  | .platform (.probe ..) => s.mem.allocated = o
  | .platform (.remove d) => s.mem.pdata d = some o
  | .platform (.use u) => s.platform.sys.UsesObject o u
  | .devmFree _ => False

/-- The objects that a step frees. -/
def Managed.Frees (s : Managed D F T) (o : ℕ) : ManagedAct D F T → Prop
  | .devmFree d => s.mem.pdata d = some o
  | .platform _ => False

/-- The lifetimes of the objects. -/
def devres : Lifetime (Managed D F T) (ManagedAct D F T) ℕ where
  freed s o := o ∈ s.freed
  reached s o := s.platform.sys.Reached o
  frees s a o := s.Frees o a
  uses s a o := s.UsesObject o a

end Step

/-! ## The devices and their objects -/

/-- What is reached after a probe was reached before, but for the new object. -/
theorem reached_of_probe [DecidableEq D] {d : D} {o : ℕ} {ok : Bool} {sys : Sys D F T}
    (ho : o < sys.mem.allocated)
    (h : ({ sys with mem := sys.mem.probe d ok } : Sys D F T).Reached o) : sys.Reached o := by
  have hne : o ≠ sys.mem.allocated := Nat.ne_of_lt ho
  rw [helloProbe_eq] at h
  rcases h with hact | hop | ⟨hdrv, hopened⟩ | ⟨hmini, -⟩
  · simp only [Function.update_of_ne hne] at hact
    exact .inl hact
  · exact .inr (.inl hop)
  · dsimp only at hdrv
    split at hdrv
    · exact absurd (Option.some.inj hdrv).symm hne
    · exact .inr (.inr (.inl ⟨hdrv, hopened⟩))
  · exact absurd (Option.some.inj hmini).symm hne

variable [DecidableEq T]

/-- The device has an object that the driver core has yet to free. -/
def Managed.Owns (s : Managed D F T) (d : D) : Prop := d ∈ s.platform.bound ∨ d ∈ s.removed

/-- The objects of the devices are not freed and differ from each other, and while `misc` is
registered it leads to the object of a bound device, which is that of `minidev`. -/
structure ManagedOk (s : Managed D F T) : Prop where
  timers : ∀ k, (s.mem.objs k).timer.Active → k < s.mem.allocated
  ops : s.platform.sys.OpsOk
  owned : ∀ d, s.Owns d → ∃ o, s.mem.pdata d = some o ∧ o < s.mem.allocated ∧ o ∉ s.freed
  owner : ∀ d d', s.Owns d → s.Owns d' → s.mem.pdata d = s.mem.pdata d' → d = d'
  removed : ∀ d ∈ s.removed, d ∉ s.platform.bound
  freed : ∀ o ∈ s.freed, o < s.mem.allocated
  registered : s.mem.registered = true → ∃ d ∈ s.platform.bound,
    s.mem.drvdata = s.mem.pdata d ∧ s.mem.minidev = s.mem.pdata d

theorem ManagedOk.init : ManagedOk (Managed.init : Managed D F T) where
  timers _ hact := absurd hact Hrtimer.not_active_init
  ops _ hx := absurd hx List.not_mem_nil
  owned _ hd := by simp [Managed.Owns, Managed.init, Platform.init] at hd
  owner _ _ hd := by simp [Managed.Owns, Managed.init, Platform.init] at hd
  removed _ hd := absurd hd (Finset.notMem_empty _)
  freed _ ho := absurd ho (Finset.notMem_empty _)
  registered hreg := by simp [Managed.init, Platform.init, Sys.init, Memory.init] at hreg

/-- The object that a file operation finds while `misc` is registered is not freed. -/
theorem ManagedOk.live {s : Managed D F T} (hs : ManagedOk s) (hreg : s.mem.registered = true) :
    ∃ o, s.mem.drvdata = some o ∧ s.mem.minidev = some o ∧ o < s.mem.allocated ∧ o ∉ s.freed := by
  obtain ⟨d, hd, hdrv, hmini⟩ := hs.registered hreg
  obtain ⟨o, ho, hlt, hlive⟩ := hs.owned d (.inl hd)
  exact ⟨o, hdrv.trans ho, hmini.trans ho, hlt, hlive⟩

/-- No object that misc or `minidev` leads to while `misc` is registered has been freed. -/
theorem ManagedOk.left {s : Managed D F T} {o : ℕ} (hs : ManagedOk s) (ho : o ∈ s.freed)
    (hreg : s.mem.registered = true) : s.mem.drvdata ≠ some o ∧ s.mem.minidev ≠ some o := by
  obtain ⟨k, hdrv, hmini, -, hlive⟩ := hs.live hreg
  constructor
  · intro hdrv'
    cases hdrv.symm.trans hdrv'
    exact hlive ho
  · intro hmini'
    cases hmini.symm.trans hmini'
    exact hlive ho

/-- A step of a client or a timer leaves the devices and their objects alone. -/
theorem ManagedOk.use [DecidableEq F] {s : Managed D F T} {u : Use F T} {sys : Sys D F T}
    (hs : ManagedOk s) (hsys : s.platform.sys.use u = some sys) :
    ManagedOk { s with platform := { s.platform with sys } } := by
  have hkept := (Sys.uses_of_use hsys).kept
  have hpdata := congrFun (pdata_of_use hsys)
  constructor
  · intro k hact
    refine hkept.allocated.symm ▸ (active_of_use hsys hact).elim (hs.timers k) ?_
    rintro ⟨hreg, hdrv, -⟩
    obtain ⟨o, ho, -, hlt, -⟩ := hs.live hreg
    cases hdrv.symm.trans ho
    exact hlt
  · exact hs.ops.use hsys
  · intro d hd
    obtain ⟨o, ho, hlt, hlive⟩ := hs.owned d hd
    exact ⟨o, (hpdata d).trans ho, hkept.allocated.symm ▸ hlt, hlive⟩
  · intro d d' hd hd' heq
    exact hs.owner d d' hd hd' (((hpdata d).symm.trans heq).trans (hpdata d'))
  · exact hs.removed
  · exact fun o ho => hkept.allocated.symm ▸ hs.freed o ho
  · intro hreg
    obtain ⟨d, hd, hdrv, hmini⟩ := hs.registered (hkept.registered.symm.trans hreg)
    exact ⟨d, hd, (hkept.drvdata.trans hdrv).trans (hpdata d).symm,
      (hkept.minidev.trans hmini).trans (hpdata d).symm⟩

variable [DecidableEq D] {s t : Managed D F T} {a : ManagedAct D F T}
  {run : List (ManagedAct D F T)} {d : D} {o : ℕ}

/-- A probe gives the device a new object. -/
theorem ManagedOk.probe {ok : Bool} (hs : ManagedOk s) (hremoved : d ∉ s.removed) :
    ManagedOk { s with
      platform :=
        { sys := { s.platform.sys with mem := s.mem.probe d ok }
          bound := insert d s.platform.bound } } := by
  rw [helloProbe_eq]
  have hpdata : ∀ d', d' ∈ insert d s.platform.bound ∨ d' ∈ s.removed →
      d' = d ∨ d' ≠ d ∧ s.Owns d' := by
    intro d' hd'
    by_cases hd : d' = d
    · exact .inl hd
    · exact .inr ⟨hd, hd'.imp_left (Finset.mem_of_mem_insert_of_ne · hd)⟩
  constructor
  · intro k hact
    by_cases hk : k = s.mem.allocated
    · exact hk ▸ Nat.lt_succ_self _
    · simp only [Function.update_of_ne hk] at hact
      exact Nat.lt_succ_of_lt (hs.timers k hact)
  · exact hs.ops
  · intro d' hd'
    rcases hpdata d' hd' with rfl | ⟨hne, hd'⟩
    · refine ⟨s.mem.allocated, Function.update_self .., Nat.lt_succ_self _, fun hfreed => ?_⟩
      exact lt_irrefl _ (hs.freed _ hfreed)
    · obtain ⟨o, ho, hlt, hlive⟩ := hs.owned d' hd'
      exact ⟨o, (Function.update_of_ne hne ..).trans ho, Nat.lt_succ_of_lt hlt, hlive⟩
  · intro d' d'' hd' hd'' heq
    rcases hpdata d' hd' with rfl | ⟨hne, hown⟩ <;>
      rcases hpdata d'' hd'' with rfl | ⟨hne', hown'⟩
    · rfl
    · obtain ⟨o, ho, hlt, -⟩ := hs.owned d'' hown'
      simp only [Function.update_self, Function.update_of_ne hne', ho, Option.some.injEq] at heq
      omega
    · obtain ⟨o, ho, hlt, -⟩ := hs.owned d' hown
      simp only [Function.update_self, Function.update_of_ne hne, ho, Option.some.injEq] at heq
      omega
    · simp only [Function.update_of_ne hne, Function.update_of_ne hne'] at heq
      exact hs.owner d' d'' hown hown' heq
  · intro d' hd' hbound
    refine hs.removed d' hd' (Finset.mem_of_mem_insert_of_ne hbound ?_)
    rintro rfl
    exact hremoved hd'
  · exact fun o ho => Nat.lt_succ_of_lt (hs.freed o ho)
  · intro hreg
    exact ⟨d, Finset.mem_insert_self _ _, by simp_all, by simp⟩

/-- After `hello_remove` the device still has its object. -/
theorem ManagedOk.remove (hs : ManagedOk s) (hbound : d ∈ s.platform.bound) :
    ManagedOk { s with
      platform :=
        { sys := { s.platform.sys with mem := { s.mem with registered := false } }
          bound := s.platform.bound.erase d }
      removed := insert d s.removed } := by
  have howns : ∀ d', d' ∈ s.platform.bound.erase d ∨ d' ∈ insert d s.removed → s.Owns d' := by
    rintro d' (hd | hd)
    · exact .inl (Finset.mem_of_mem_erase hd)
    · exact (Finset.mem_insert.1 hd).elim (fun hd => .inl (hd ▸ hbound)) .inr
  constructor
  · exact hs.timers
  · exact hs.ops
  · exact fun d' hd => hs.owned d' (howns d' hd)
  · exact fun d' d'' hd hd' => hs.owner d' d'' (howns d' hd) (howns d'' hd')
  · intro d' hd hd'
    obtain ⟨hne, hd'⟩ := Finset.mem_erase.1 hd'
    exact hs.removed d' ((Finset.mem_insert.1 hd).resolve_left hne) hd'
  · exact hs.freed
  · exact nofun

/-- The memory of a device that was removed is that of its object, and of no other device. -/
theorem ManagedOk.devmFree (hs : ManagedOk s) (hremoved : d ∈ s.removed) :
    ManagedOk { s with
      removed := s.removed.erase d
      freed := (s.mem.pdata d).elim s.freed fun o => insert o s.freed } := by
  obtain ⟨o, ho, hlt, -⟩ := hs.owned d (.inr hremoved)
  rw [ho, Option.elim_some]
  have howns : ∀ d', d' ∈ s.platform.bound ∨ d' ∈ s.removed.erase d → s.Owns d' ∧ d' ≠ d := by
    rintro d' (hd | hd)
    · exact ⟨.inl hd, fun hne => hs.removed d hremoved (hne ▸ hd)⟩
    · exact ⟨.inr (Finset.mem_of_mem_erase hd), Finset.ne_of_mem_erase hd⟩
  constructor
  · exact hs.timers
  · exact hs.ops
  · intro d' hd
    obtain ⟨hown, hne⟩ := howns d' hd
    obtain ⟨o', ho', hlt', hlive⟩ := hs.owned d' hown
    refine ⟨o', ho', hlt', fun hfreed => ?_⟩
    obtain rfl := (Finset.mem_insert.1 hfreed).resolve_right hlive
    exact hne (hs.owner d' d hown (.inr hremoved) (ho'.trans ho.symm))
  · exact fun d' d'' hd hd' => hs.owner d' d'' (howns d' hd).1 (howns d'' hd').1
  · exact fun d' hd => hs.removed d' (Finset.mem_of_mem_erase hd)
  · intro o' ho'
    rcases Finset.mem_insert.1 ho' with rfl | ho'
    · exact hlt
    · exact hs.freed o' ho'
  · exact hs.registered

variable [DecidableEq F]

/-- The steps of the system, with what enables them. -/
inductive Managed.Steps (s : Managed D F T) : ManagedAct D F T → Managed D F T → Prop
  | probe {d : D} {ok : Bool} : d ∉ s.removed → d ∉ s.platform.bound →
    Steps s (.platform (.probe d ok)) { s with
      platform :=
        { sys := { s.platform.sys with mem := s.mem.probe d ok }
          bound := insert d s.platform.bound } }
  | remove {d : D} : d ∈ s.platform.bound →
    Steps s (.platform (.remove d)) { s with
      platform :=
        { sys := { s.platform.sys with mem := { s.mem with registered := false } }
          bound := s.platform.bound.erase d }
      removed := insert d s.removed }
  | use {u : Use F T} {sys : Sys D F T} : s.platform.sys.use u = some sys →
    Steps s (.platform (.use u)) { s with platform := { s.platform with sys } }
  | devmFree {d : D} : d ∈ s.removed →
    Steps s (.devmFree d) { s with
      removed := s.removed.erase d
      freed := (s.mem.pdata d).elim s.freed fun o => insert o s.freed }

theorem steps_of_managedStep (h : managedStep s a = some t) : s.Steps a t := by
  cases a with
  | platform a =>
    cases a with
    | probe d ok =>
      obtain ⟨hremoved, h⟩ := Option.ite_none_right_eq_some.1 h
      obtain ⟨platform, hplatform, rfl⟩ := Option.map_eq_some_iff.1 h
      obtain ⟨hbound, ⟨⟩⟩ := Option.ite_none_right_eq_some.1 hplatform
      exact .probe hremoved hbound
    | remove d =>
      obtain ⟨platform, hplatform, rfl⟩ := Option.map_eq_some_iff.1 h
      obtain ⟨hbound, ⟨⟩⟩ := Option.ite_none_right_eq_some.1 hplatform
      exact .remove hbound
    | use u =>
      obtain ⟨platform, hplatform, rfl⟩ := Option.map_eq_some_iff.1 h
      obtain ⟨sys, hsys, rfl⟩ := Option.map_eq_some_iff.1 hplatform
      exact .use hsys
  | devmFree d =>
    obtain ⟨hremoved, ⟨⟩⟩ := Option.ite_none_right_eq_some.1 h
    exact .devmFree hremoved

/-- Every step of the driver core, of the driver and of its clients keeps the objects of the devices
apart and in memory. -/
theorem ManagedOk.step (hs : ManagedOk s) (h : managedStep s a = some t) : ManagedOk t := by
  cases steps_of_managedStep h with
  | probe hremoved => exact hs.probe hremoved
  | remove hbound => exact hs.remove hbound
  | use hsys => exact hs.use hsys
  | devmFree hremoved => exact hs.devmFree hremoved

/-! ## The rules of the freed objects -/

/-- A step of a client or a timer in the system. -/
theorem managedStep_use {u : Use F T} {sys : Sys D F T} (h : s.platform.sys.use u = some sys) :
    managedStep s (.platform (.use u)) = some { s with platform := { s.platform with sys } } := by
  simp [managedStep, platformStep, h]

theorem exec_managedStep_use {more : List (Use F T)} {sys : Sys D F T}
    (h : exec Sys.use s.platform.sys more = some sys) :
    exec managedStep s (more.map fun u => .platform (.use u)) =
      some { s with platform := { s.platform with sys } } := by
  induction more generalizing s with
  | nil =>
    cases h
    rfl
  | cons u more ih =>
    obtain ⟨sys', hsys', h⟩ := Option.bind_eq_some_iff.1 h
    rw [List.map_cons, exec_cons, managedStep_use hsys']
    exact ih (s := { s with platform := { s.platform with sys := sys' } }) h

theorem lawful_devres :
    (devres : Lifetime (Managed D F T) (ManagedAct D F T) ℕ).Lawful managedStep ManagedOk where
  keeps := ManagedOk.step
  freed_iff := by
    intro s a t o hs h
    cases steps_of_managedStep h with
    | probe | remove | use => exact (or_iff_left id).symm
    | @devmFree d hremoved =>
      obtain ⟨k, hk, -⟩ := hs.owned d (.inr hremoved)
      simp [devres, Managed.Frees, hk, eq_comm, or_comm]
  reached_of_uses := by
    intro s a t o hs h ho huses
    cases steps_of_managedStep h with
    | probe => exact absurd huses (Nat.ne_of_gt (hs.freed o ho))
    | @remove d hbound =>
      obtain ⟨k, hk, -, hlive⟩ := hs.owned d (.inl hbound)
      cases hk.symm.trans huses
      exact absurd ho hlive
    | use hsys =>
      exact reached_of_usesObject (fun hreg => (hs.left ho hreg).1) hs.timers hsys huses
    | devmFree => cases huses
  reached_of_step := by
    intro s a t o hs h ho hreached
    cases steps_of_managedStep h with
    | probe => exact reached_of_probe (hs.freed o ho) hreached
    | remove | devmFree => exact hreached
    | use hsys => exact reached_of_use (hs.left ho) hsys hreached
  reached_iff_of_frees := by
    intro s a t o hs h hfrees
    cases steps_of_managedStep h with
    | probe | remove | use => cases hfrees
    | devmFree => exact Iff.rfl
  use_of_reached := by
    intro s o hs _ hreached
    obtain ⟨more, u, t, v, ht, hv, huses⟩ := use_of_reached hs.ops hreached
    exact ⟨_, .platform (.use u), _, _, exec_managedStep_use ht, managedStep_use hv, huses⟩

/-! ## When no freed object is used -/

theorem safe_iff_unreached (h : exec managedStep .init run = some s) :
    Throughout managedStep .init (devres.Safe managedStep) run ↔
      Meets managedStep .init devres.Unreached run :=
  Lifetime.safe_iff lawful_devres ManagedOk.init (fun o ho => absurd ho (Finset.notMem_empty o)) h

instance {s : Sys D F T} {o : ℕ} : Decidable (s.Reached o) := inferInstanceAs (Decidable (_ ∨ _))

instance : Decidable (devres.Unreached run s a) :=
  match a with
  | .platform _ => .isTrue fun _ hfrees => absurd hfrees id
  | .devmFree d => decidable_of_iff (∀ o ∈ s.mem.pdata d, ¬ s.platform.sys.Reached o) Iff.rfl

/-- The second device is probed while a file is open: the release of the file stops the timer of the
second one, and that of the first outlives its memory, which was freed while no file was open. -/
theorem not_safe_probe_while_open : ¬ Throughout managedStep .init (devres.Safe managedStep)
    ([.platform (.probe 0 true), .platform (.use (.opens ())), .platform (.probe 1 true),
      .platform (.use (.release ())), .platform (.remove 0), .devmFree 0] :
      List (ManagedAct (Fin 2) Unit Unit)) := by
  obtain ⟨s, hs⟩ : ∃ s, exec managedStep .init
    ([.platform (.probe 0 true), .platform (.use (.opens ())), .platform (.probe 1 true),
      .platform (.use (.release ())), .platform (.remove 0), .devmFree 0] :
      List (ManagedAct (Fin 2) Unit Unit)) = some s := ⟨_, rfl⟩
  rw [safe_iff_unreached hs]
  decide +kernel

end Starrysky.Miniature
