import Starrysky.Miniature.MiniDevice
import Mathlib.Data.Finset.Basic
import Mathlib.Data.Fintype.Basic

/-!
# One timer for all files

`dmisc_open` starts the timer of the device and `dmisc_release` cancels it, whoever else has the
device open. Two facts hold in every run of a bound device (`FilesOk`): only the object that the
file operations find has an active timer, and only while a file is open; and every operation under
way is on an open file and holds that object. The converse of the first, that an open file has an
active timer, holds exactly as long as every release is by the only client (`served_iff`).
-/

namespace Starrysky.Miniature

open Transition

variable {F T : Type}

/-- What holds in every run of a bound device. -/
structure FilesOk (s : State F T) : Prop where
  timer : ∀ o, (s.mini o).timer.Active → s.drvdata = some o ∧ s.opened ≠ ∅
  ops : ∀ x ∈ s.ops, x.2.file ∈ s.opened ∧ s.drvdata = some x.2.data

/-- An open file has an active timer, and no timer is active when no file is open. -/
structure Served (s : State F T) : Prop where
  active : s.opened ≠ ∅ → (s.mini 0).timer.Active
  idle : s.opened = ∅ → ¬ (s.mini 0).timer.Active

variable {s t : State F T} {u : Use F T} {run : List (Use F T)}

/-- No other file is open when a file is released. -/
def LastClient (_ : List (Use F T)) (s : State F T) (u : Use F T) : Prop :=
  ∀ f, u = .release f → s.opened = {f}

instance [DecidableEq F] (s : State F T) : Decidable (Served s) :=
  decidable_of_iff (_ ∧ _) ⟨fun h => ⟨h.1, h.2⟩, fun h => ⟨h.1, h.2⟩⟩

instance [DecidableEq F] [DecidableEq T] [Fintype F] (run : List (Use F T)) (s : State F T)
    (u : Use F T) : Decidable (LastClient run s u) :=
  inferInstanceAs (Decidable (∀ _, _ → _))

theorem FilesOk.bound : FilesOk (State.bound : State F T) where
  timer := by
    intro o ho
    have htimer : ((State.bound : State F T).mini o).timer = .init := by
      by_cases h : o = 0 <;> simp [State.bound, State.helloProbe, State.init, h]
    exact absurd (htimer ▸ ho) Hrtimer.not_active_init
  ops := by simp [State.bound, State.helloProbe, State.init]

variable [DecidableEq F] [DecidableEq T]

/-- A file operation of the bound device keeps its timer to its open files, and its running
operations to the object of the device. -/
theorem FilesOk.step (ok : FilesOk s) (h : Uses s u t) : FilesOk t := by
  cases h with
  | @opens f o _ _ ho =>
    refine ⟨fun k hk => ⟨?_, Finset.insert_ne_empty f _⟩, fun x hx => ?_⟩
    · rcases active_setTimer.1 hk with ⟨rfl, -⟩ | ⟨-, hk⟩
      · exact ho
      · exact (ok.timer k hk).1
    · exact ⟨Finset.mem_insert_of_mem (ok.ops x hx).1, (ok.ops x hx).2⟩
  | @release f o timer hf hops ho htimer =>
    refine ⟨fun k hk => ?_, fun x hx => ?_⟩
    · rcases active_setTimer.1 hk with ⟨-, hk⟩ | ⟨hko, hk⟩
      · exact absurd hk (Hrtimer.not_active_of_cancel htimer)
      · -- no timer but that of `o` was active
        exact absurd (Option.some.inj ((ok.timer k hk).1.symm.trans ho)) hko
    · exact ⟨Finset.mem_erase.2 ⟨hops x hx, (ok.ops x hx).1⟩, (ok.ops x hx).2⟩
  | @call p f op o hf _ ho =>
    refine ⟨ok.timer, fun x hx => ?_⟩
    rcases mem_setOp hx with rfl | hx
    · exact ⟨hf, ho⟩
    · exact ok.ops x hx
  | pass hi | signal hi | copy hi =>
    refine ⟨ok.timer, fun x hx => ?_⟩
    have hin := ok.ops _ (mem_ops_of_op hi)
    rcases mem_setOp hx with rfl | hx
    · exact hin
    · exact ok.ops x hx
  | clear | returns => exact ⟨by simpa using ok.timer, fun x hx => ok.ops x (mem_endOp hx)⟩
  | @expire o timer htimer =>
    refine ⟨fun k hk => ?_, ok.ops⟩
    rcases active_setTimer.1 hk with ⟨rfl, -⟩ | ⟨-, hk⟩
    · exact ok.timer k (Hrtimer.active_of_expire htimer).1
    · exact ok.timer k hk
  | @callback o m timer htimer =>
    refine ⟨fun k hk => ?_, ok.ops⟩
    rcases active_setTimer.1 hk with ⟨rfl, -⟩ | ⟨-, hk⟩
    · exact ok.timer k (Hrtimer.active_of_restart htimer).1
    · exact ok.timer k (by simpa using hk)

/-- **Run lemma.** The first device stays bound, and its object is the one that the file operations
find. -/
theorem reachable_filesOk (h : exec useStep State.bound run = some s) :
    s.drvdata = some 0 ∧ FilesOk s := by
  refine exec_induction (P := fun _ s => s.drvdata = some 0 ∧ FilesOk s) ⟨rfl, .bound⟩ ?_ h
  rintro run s u t - ⟨hdrv, ok⟩ hstep
  have hu := uses_of_useStep hstep
  exact ⟨hu.frame.1.trans hdrv, ok.step hu⟩

/-- In no run is a timer active without an open file. -/
theorem idle_of_closed (h : exec useStep State.bound run = some s) (hnone : s.opened = ∅) :
    ¬ (s.mini 0).timer.Active :=
  fun hact => ((reachable_filesOk h).2.timer 0 hact).2 hnone

/-- A step that does not release a file beside another keeps the timer of the open files active. -/
theorem active_of_lastClient (hdrv : s.drvdata = some 0)
    (hact : s.opened ≠ ∅ → (s.mini 0).timer.Active) (hlast : ∀ f, u = .release f → s.opened = {f})
    (h : Uses s u t) (hne : t.opened ≠ ∅) : (t.mini 0).timer.Active := by
  cases h with
  | opens _ _ ho =>
    obtain rfl := Option.some.inj (hdrv.symm.trans ho)
    exact active_setTimer.2 (.inl ⟨rfl, Hrtimer.active_start⟩)
  | @release f =>
    have hone : s.opened = {f} := hlast f rfl
    exact absurd ((Finset.erase_eq_empty_iff _ _).2 (.inr hone)) hne
  | call | pass | signal | copy | returns => exact hact hne
  | clear => simpa using hact hne
  | @expire o _ htimer =>
    by_cases ho : 0 = o
    · exact active_setTimer.2 (.inl ⟨ho, (Hrtimer.active_of_expire htimer).2⟩)
    · exact active_setTimer.2 (.inr ⟨ho, hact hne⟩)
  | @callback o _ _ htimer =>
    by_cases ho : 0 = o
    · exact active_setTimer.2 (.inl ⟨ho, (Hrtimer.active_of_restart htimer).2⟩)
    · exact active_setTimer.2 (.inr ⟨ho, by simpa using hact hne⟩)

/-- A release cancels the timer, so the files that are left open, if any, have lost it. -/
theorem lastClient_of_active {f : F} (hdrv : s.drvdata = some 0) (h : Uses s (.release f) t)
    (hact : t.opened ≠ ∅ → (t.mini 0).timer.Active) : s.opened = {f} := by
  cases h with
  | release hf _ ho htimer =>
    obtain rfl := Option.some.inj (hdrv.symm.trans ho)
    have hnone : s.opened.erase f = ∅ := by
      by_contra hne
      rcases active_setTimer.1 (hact hne) with ⟨-, hactive⟩ | ⟨hne, -⟩
      · exact Hrtimer.not_active_of_cancel htimer hactive
      · exact hne rfl
    rcases (Finset.erase_eq_empty_iff _ _).1 hnone with hempty | hone
    · simp [hempty] at hf
    · exact hone

/-- **A client is served exactly as long as nobody closes beside an open file.** In every run of the
bound device, the timer is active in all states with an open file and in no other state, if and only
if no other file is open whenever a file is released. -/
theorem served_iff {F T : Type} [DecidableEq F] [DecidableEq T] (run : List (Use F T))
    (s : State F T) (h : exec useStep State.bound run = some s) :
    Throughout useStep State.bound (fun _ s => Served s) run ↔
      Meets useStep State.bound LastClient run := by
  refine throughout_iff_meets ?_ ?_ ?_ h
  · exact ⟨fun hne => absurd rfl hne, idle_of_closed (exec_nil _)⟩
  · intro run s u t hrun ok hlast hstep
    have hdrv := (reachable_filesOk hrun).1
    exact ⟨active_of_lastClient hdrv ok.active hlast (uses_of_useStep hstep),
      idle_of_closed (exec_concat.2 ⟨s, hrun, hstep⟩)⟩
  · rintro run s u t hrun hstep ok f rfl
    have hdrv := (reachable_filesOk hrun).1
    exact lastClient_of_active hdrv (uses_of_useStep hstep) ok.active

theorem served_one_after_another :
    Throughout useStep (State.bound : State (Fin 2) Unit) (fun _ s => Served s)
      [.opens 0, .expire 0, .callback 0, .release 0, .opens 1, .expire 0] := by
  obtain ⟨s, hs⟩ : ∃ s, exec useStep (State.bound : State (Fin 2) Unit)
      [.opens 0, .expire 0, .callback 0, .release 0, .opens 1, .expire 0] = some s := ⟨_, rfl⟩
  exact (served_iff _ s hs).2 (by decide +kernel)

/-- The second client's timer is cancelled when the first client closes. -/
theorem not_served_second_client :
    ¬ Throughout useStep (State.bound : State (Fin 2) Unit) (fun _ s => Served s)
      [.opens 0, .opens 1, .release 0] := by
  decide +kernel

end Starrysky.Miniature
