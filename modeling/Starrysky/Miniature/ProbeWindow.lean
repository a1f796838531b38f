import Starrysky.Miniature.Clients
import Mathlib.Data.Finset.Basic
import Mathlib.Data.Fintype.Basic

/-!
# The window of `hello_probe`

`hello_probe` registers `misc` before it has allocated the object that the file operations find, and
sets the driver data of `misc.this_device` as the last statement but one. The machine interleaves
the statements of one probe with the steps of any number of clients. What a file operation
dereferences is an initialised object exactly as long as every open comes after that statement
(`sound_iff`).
-/

namespace Starrysky.Miniature

open Transition

/-- A probe under way beside its clients, with the statements it has yet to run. -/
structure Probing (F T : Type) where
  sys : Sys Unit F T
  rest : List ProbeStmt

inductive ProbingAct (F T : Type) where
  /-- the next statement of `hello_probe` -/
  | stmt
  | use (u : Use F T)
  deriving DecidableEq

variable {F T : Type} {ok : Bool} {s t : Probing F T} {a : ProbingAct F T}
  {run : List (ProbingAct F T)}

/-- `hello_probe` is about to run, and its `misc_register` will return 0 if `ok`. -/
def Probing.init (ok : Bool) : Probing F T := { sys := .init, rest := helloProbe ok }

/-- What the statements of the probe that have run make of the loaded module. -/
def Probing.Ran (ok : Bool) (s : Probing F T) : Prop :=
  ∃ done, done ++ s.rest = helloProbe ok ∧
    Kept (done.foldl (ProbeStmt.exec ()) .init) s.sys.mem

/-- A file is open, and an operation on it under way, only after the driver data of
`misc.this_device` has been set. -/
structure WindowOk (s : Probing F T) : Prop where
  opened : ∀ f ∈ s.sys.opened, s.sys.mem.registered = true ∧ .setMiscDrvdata ∉ s.rest
  ops : ∀ x ∈ s.sys.ops, x.2.file ∈ s.sys.opened ∧ x.2.data = s.sys.mem.drvdata

/-! ## The statements of the probe -/

section Statements

variable {D : Type} [DecidableEq D] {d : D} {m m' : Memory D} {c : ProbeStmt}
  {rest : List ProbeStmt}

/-- Two memories that agree in what probes set still do after a statement of a probe. -/
theorem Kept.exec (h : Kept m m') : Kept (c.exec d m) (c.exec d m') := by
  cases c with
  | miscRegister ok =>
    refine ⟨?_, ?_, h.minidev, h.allocated, h.setup⟩
    · simp [ProbeStmt.exec, h.registered]
    · simp [ProbeStmt.exec, h.drvdata]
  | kzalloc =>
    refine ⟨h.registered, h.drvdata, ?_, ?_, fun k => ?_⟩
    · simp [ProbeStmt.exec, h.allocated]
    · simp [ProbeStmt.exec, h.allocated]
    · by_cases hk : k = m.allocated
      · simp [ProbeStmt.exec, h.allocated, hk]
      · simpa [ProbeStmt.exec, h.allocated, hk] using h.setup k
  | setValue | initWaitqueue | setKt | hrtimerInit | setFunction =>
    simp only [ProbeStmt.exec, h.minidev]
    exact h.write_write fun x y hxy => by simp [hxy]
  | setMiscDrvdata =>
    refine ⟨h.registered, ?_, h.minidev, h.allocated, h.setup⟩
    simp [ProbeStmt.exec, h.registered, h.minidev, h.drvdata]
  | setPdevDrvdata => exact ⟨h.registered, h.drvdata, h.minidev, h.allocated, h.setup⟩

/-- Until `dev_set_drvdata(misc.this_device, minidev)` no object of the driver is the driver data.
-/
theorem foldl_drvdata {done : List ProbeStmt} (h : .setMiscDrvdata ∉ done)
    (hm : m.drvdata = none) : (done.foldl (ProbeStmt.exec d) m).drvdata = none := by
  induction done generalizing m with
  | nil => exact hm
  | cons c done ih =>
    rw [List.mem_cons, not_or] at h
    refine ih h.2 ?_
    cases c with
    | setMiscDrvdata => exact absurd rfl h.1
    | miscRegister ok => simp [ProbeStmt.exec, hm]
    | kzalloc | setPdevDrvdata => exact hm
    | setValue | initWaitqueue | setKt | hrtimerInit | setFunction =>
      simpa [ProbeStmt.exec] using hm

/-- After it only the driver data of the platform device is left to set. -/
theorem rest_of_published (h : rest <:+ helloProbe ok) (hset : .setMiscDrvdata ∉ rest) :
    rest = [.setPdevDrvdata] ∨ rest = [] := by
  rw [← List.mem_tails] at h
  simp only [helloProbe, List.tails, List.mem_cons, List.not_mem_nil, or_false] at h
  rcases h with rfl | rfl | rfl | rfl | rfl | rfl | rfl | rfl | rfl | rfl <;> simp_all

end Statements

theorem Probing.Ran.suffix (h : s.Ran ok) : s.rest <:+ helloProbe ok := by
  obtain ⟨done, hdone, -⟩ := h
  exact ⟨done, hdone⟩

theorem Probing.Ran.drvdata_none (h : s.Ran ok) (hset : .setMiscDrvdata ∈ s.rest) :
    s.sys.mem.drvdata = none := by
  obtain ⟨done, hdone, hkept⟩ := h
  have hnodup : (done ++ s.rest).Nodup := hdone ▸ by cases ok <;> decide
  have hnot : .setMiscDrvdata ∉ done := fun hin =>
    List.disjoint_of_nodup_append hnodup hin hset
  rw [hkept.drvdata]
  exact foldl_drvdata hnot rfl

/-- Once the driver data is set, it is the initialised object, provided there is a `misc`. -/
theorem Probing.Ran.published (h : s.Ran ok) (hset : .setMiscDrvdata ∉ s.rest)
    (hreg : s.sys.mem.registered = true) :
    s.sys.mem.drvdata = some 0 ∧ (s.sys.mem.objs 0).Initialised := by
  have hprobe : Kept (Memory.init.probe () ok) s.sys.mem := by
    have hrest := rest_of_published h.suffix hset
    obtain ⟨done, hdone, hkept⟩ := h
    rw [Memory.probe, ← hdone, List.foldl_append]
    rcases hrest with hrest | hrest
    · rw [hrest]
      exact ⟨hkept.registered, hkept.drvdata, hkept.minidev, hkept.allocated, hkept.setup⟩
    · rw [hrest]
      exact hkept
  rw [helloProbe_eq] at hprobe
  have hok : ok = true := by simpa [Memory.init] using hprobe.registered.symm.trans hreg
  refine ⟨?_, ?_⟩
  · simpa [Memory.init, hok] using hprobe.drvdata
  · simpa [Object.Initialised, Object.probed, Memory.init] using hprobe.setup 0

/-- **Step lemma** for the probe: once a file is open, only the driver data of the platform device
is left to set. -/
theorem WindowOk.stmt {c : ProbeStmt} {rest : List ProbeStmt} (h : WindowOk s) (hran : s.Ran ok)
    (hrest : s.rest = c :: rest) :
    WindowOk { sys := { s.sys with mem := c.exec () s.sys.mem }, rest } := by
  have hlast : ∀ f ∈ s.sys.opened, c = .setPdevDrvdata ∧ rest = [] := by
    intro f hf
    have hone := rest_of_published hran.suffix (h.opened f hf).2
    simpa [hrest] using hone
  refine ⟨fun f hf => ?_, fun x hx => ?_⟩
  · obtain ⟨rfl, rfl⟩ := hlast f hf
    exact ⟨(h.opened f hf).1, by simp⟩
  · obtain ⟨hfile, hdata⟩ := h.ops x hx
    obtain ⟨rfl, rfl⟩ := hlast _ hfile
    exact ⟨hfile, hdata⟩

/-! ## The steps -/

variable [DecidableEq F] [DecidableEq T]

/-- A step of the probe or of a client. -/
def probingStep (s : Probing F T) : ProbingAct F T → Option (Probing F T)
  | .stmt =>
    match s.rest with
    | [] => none
    | c :: rest => some { sys := { s.sys with mem := c.exec () s.sys.mem }, rest }
  | .use u => (s.sys.use u).map fun sys => { s with sys }

/-- What a file operation dereferences is an initialised object. -/
def Sound (_ : List (ProbingAct F T)) (s : Probing F T) (a : ProbingAct F T) : Prop :=
  ∀ u, a = .use u → ∀ ptr, s.sys.dereferences u = some ptr →
    ∃ o, ptr = some o ∧ (s.sys.mem.objs o).Initialised

/-- An open comes after the probe has set the driver data of `misc.this_device`. -/
def AfterDrvdata (_ : List (ProbingAct F T)) (s : Probing F T) (a : ProbingAct F T) : Prop :=
  ∀ f, a = .use (.opens f) → .setMiscDrvdata ∉ s.rest

instance [Fintype F] (run : List (ProbingAct F T)) (s : Probing F T) (a : ProbingAct F T) :
    Decidable (AfterDrvdata run s a) :=
  inferInstanceAs (Decidable (∀ _, _ → _))

/-- **Run lemma.** The clients leave alone what the statements of the probe have set. -/
theorem reachable_ran (h : exec probingStep (Probing.init ok) run = some s) : s.Ran ok := by
  refine exec_induction (P := fun _ s => s.Ran ok) ⟨[], rfl, .refl _⟩ ?_ h
  rintro run s a t - ⟨done, hdone, hkept⟩ hstep
  cases a with
  | stmt =>
    simp only [probingStep] at hstep
    split at hstep
    · cases hstep
    · next c rest hrest =>
      cases hstep
      refine ⟨done ++ [c], by simp [← hdone, hrest], ?_⟩
      rw [List.foldl_append]
      exact hkept.exec
  | use u =>
    obtain ⟨sys, hsys, ⟨⟩⟩ := Option.map_eq_some_iff.1 hstep
    exact ⟨done, hdone, hkept.trans (Sys.uses_of_use hsys).kept⟩

/-- **Step lemma** for the clients. -/
theorem WindowOk.use {u : Use F T} {sys : Sys Unit F T} (ok : WindowOk s)
    (hafter : ∀ f, u = .opens f → .setMiscDrvdata ∉ s.rest) (h : s.sys.Uses u sys) :
    WindowOk { s with sys } := by
  have hkept := h.kept
  cases h with
  | @opens f m hreg =>
    refine ⟨fun k hk => ?_, fun x hx => ?_⟩
    · exact ⟨hkept.registered.trans hreg, hafter f rfl⟩
    · exact ⟨Finset.mem_insert_of_mem (ok.ops x hx).1, (ok.ops x hx).2.trans hkept.drvdata.symm⟩
  | @release f m _ hops =>
    refine ⟨fun k hk => ?_, fun x hx => ?_⟩
    · obtain ⟨hreg, hset⟩ := ok.opened k (Finset.mem_of_mem_erase hk)
      exact ⟨hkept.registered.trans hreg, hset⟩
    · exact ⟨Finset.mem_erase.2 ⟨hops x hx, (ok.ops x hx).1⟩,
        (ok.ops x hx).2.trans hkept.drvdata.symm⟩
  | call hf =>
    refine ⟨ok.opened, fun x hx => ?_⟩
    rcases Sys.mem_setOp hx with rfl | hx
    · exact ⟨hf, rfl⟩
    · exact ok.ops x hx
  | pass hi | signal hi | copy hi =>
    refine ⟨ok.opened, fun x hx => ?_⟩
    have hin := ok.ops _ (Sys.mem_ops_of_op hi)
    rcases Sys.mem_setOp hx with rfl | hx
    · exact hin
    · exact ok.ops x hx
  | returns => exact ⟨ok.opened, fun x hx => ok.ops x (Sys.mem_endOp hx)⟩
  | clear =>
    refine ⟨fun k hk => ?_, fun x hx => ?_⟩
    · exact ⟨hkept.registered.trans (ok.opened k hk).1, (ok.opened k hk).2⟩
    · have hin := ok.ops x (Sys.mem_endOp hx)
      exact ⟨hin.1, hin.2.trans hkept.drvdata.symm⟩
  | expire | callback =>
    refine ⟨fun k hk => ?_, fun x hx => ?_⟩
    · exact ⟨hkept.registered.trans (ok.opened k hk).1, (ok.opened k hk).2⟩
    · exact ⟨(ok.ops x hx).1, (ok.ops x hx).2.trans hkept.drvdata.symm⟩

/-- What a file operation dereferences is the driver data, and it has been set. -/
theorem WindowOk.published {u : Use F T} {sys : Sys Unit F T} {ptr : Option ℕ} (ok : WindowOk s)
    (hafter : ∀ f, u = .opens f → .setMiscDrvdata ∉ s.rest) (h : s.sys.Uses u sys)
    (hptr : s.sys.dereferences u = some ptr) :
    ptr = s.sys.mem.drvdata ∧ s.sys.mem.registered = true ∧ .setMiscDrvdata ∉ s.rest := by
  cases h with
  | @opens f _ hreg => exact ⟨(Option.some.inj hptr).symm, hreg, hafter f rfl⟩
  | @release f _ hf | @call _ f _ hf => exact ⟨(Option.some.inj hptr).symm, ok.opened f hf⟩
  | pass hi | signal hi | copy hi | clear hi | returns hi =>
    obtain ⟨hfile, hdata⟩ := ok.ops _ (Sys.mem_ops_of_op hi)
    simp only [Sys.dereferences, hi, Option.map_some, Option.some.injEq] at hptr
    exact ⟨hptr ▸ hdata, ok.opened _ hfile⟩
  | expire | callback => cases hptr

/-- **The file operations find an initialised object exactly when no open falls into the window.**
Every pointer that a file operation dereferences in a run of one probe beside any number of clients
is an object whose wait queue and timer are initialised, if and only if every open of the run comes
after `dev_set_drvdata(misc.this_device, minidev)`. -/
theorem sound_iff {F T : Type} [DecidableEq F] [DecidableEq T] (ok : Bool)
    (run : List (ProbingAct F T)) (s : Probing F T)
    (h : exec probingStep (Probing.init ok) run = some s) :
    Meets probingStep (Probing.init ok) Sound run ↔
      Meets probingStep (Probing.init ok) AfterDrvdata run := by
  refine meets_iff_meets (I := fun _ s => WindowOk s) ?_ ?_ ?_ ?_ h
  · exact ⟨by simp [Probing.init, Sys.init], by simp [Probing.init, Sys.init]⟩
  · intro run s a t hrun hok hafter hstep
    cases a with
    | stmt =>
      simp only [probingStep] at hstep
      split at hstep
      · cases hstep
      · next c rest hrest =>
        cases hstep
        exact hok.stmt (reachable_ran hrun) hrest
    | use u =>
      obtain ⟨sys, hsys, ⟨⟩⟩ := Option.map_eq_some_iff.1 hstep
      exact hok.use (fun f hf => hafter f (hf ▸ rfl)) (Sys.uses_of_use hsys)
  · rintro run s a t hrun hok hafter hstep u rfl ptr hptr
    obtain ⟨sys, hsys, ⟨⟩⟩ := Option.map_eq_some_iff.1 hstep
    obtain ⟨rfl, hreg, hset⟩ :=
      hok.published (fun f hf => hafter f (hf ▸ rfl)) (Sys.uses_of_use hsys) hptr
    exact ⟨0, (reachable_ran hrun).published hset hreg⟩
  · rintro run s a t hrun - hsound f rfl hset
    -- before the statement the driver data is none of the driver's
    obtain ⟨o, ho, -⟩ := hsound _ rfl _ rfl
    simp [(reachable_ran hrun).drvdata_none hset] at ho

theorem sound_probe_then_open :
    Meets probingStep (Probing.init true : Probing (Fin 1) Unit) Sound
      (List.replicate 8 .stmt ++ [.use (.opens 0), .stmt, .use (.call () 0 .poll)]) := by
  obtain ⟨s, hs⟩ : ∃ s, exec probingStep (Probing.init true : Probing (Fin 1) Unit)
      (List.replicate 8 .stmt ++ [.use (.opens 0), .stmt, .use (.call () 0 .poll)]) = some s :=
    ⟨_, rfl⟩
  exact (sound_iff true _ s hs).2 (by decide +kernel)

/-- A client opens the device as soon as `misc_register` has returned 0, and dereferences what is
not an object of the driver. -/
theorem not_sound_open_in_window :
    (exec probingStep (Probing.init true : Probing (Fin 1) Unit)
      [.stmt, .use (.opens 0)]).isSome ∧
    ¬ Meets probingStep (Probing.init true : Probing (Fin 1) Unit) Sound
      [.stmt, .use (.opens 0)] := by
  refine ⟨rfl, fun h => ?_⟩
  obtain ⟨o, ho, -⟩ := h [.stmt] _ [] _ rfl rfl (.opens 0) rfl none rfl
  cases ho

end Starrysky.Miniature
