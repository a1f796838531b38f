import Starrysky.Interrupt.Driver

/-!
# The timer from the first open to `hello_exit`

In the three interrupt drivers `dmisc_release` leaves the timer alone, so that the first open starts
a timer that its own callback keeps going until `hello_exit` cancels it. After `hrtimer_cancel`
nothing starts it again: no file can be opened, and no callback runs. The proof carries the
invariant `TimerOk`, which speaks of `hello_exit` by whether its `hrtimer_cancel` has returned.
-/

namespace Starrysky.Interrupt

open Transition

variable {F : Type} {d : Driver} {s t : State F} {a : Act F} {run : List (Act F)}

/-- The `hrtimer_cancel` of `hello_exit` has returned. -/
def State.Cancelled (s : State F) : Prop := ∃ rest, s.exit = some rest ∧ .hrtimerCancel ∉ rest

/-- What holds in every run of an interrupt driver. -/
structure TimerOk (run : List (Act F)) (s : State F) : Prop where
  exit : ∀ rest, s.exit = some rest → rest <:+ [.hrtimerCancel, .miscDeregister]
  active : (∃ f, .opens f ∈ run) → ¬ s.Cancelled → s.timer.Active
  stopped : s.Cancelled → ¬ s.timer.Active

theorem dmiscRelease_of_ne {timer timer' : Hrtimer} (hd : d ≠ .press .miniatureDriver)
    (h : dmiscRelease d timer = some timer') : timer' = timer := by
  unfold dmiscRelease at h
  split at h
  · exact absurd rfl hd
  all_goals exact (Option.some.inj h).symm

theorem helloExit_of_ne {rest : List ExitStmt} (hd : d ≠ .press .miniatureDriver)
    (h : helloExit d = some rest) : rest = [.hrtimerCancel, .miscDeregister] := by
  unfold helloExit at h
  split at h
  · exact (Option.some.inj h).symm
  · exact (Option.some.inj h).symm
  · exact (Option.some.inj h).symm
  · cases h

/-- No statement of the callback stops the timer, or starts one that has stopped. -/
theorem Stmt.active_iff {timer timer' : Hrtimer} (c : Stmt) (h : c.timer timer = some timer') :
    timer'.Active ↔ timer.Active := by
  by_cases hc : c = .press .restart
  · subst hc
    obtain ⟨hbefore, hafter⟩ := Hrtimer.active_of_restart h
    exact iff_of_true hafter hbefore
  · rw [Stmt.timer_of_ne hc] at h
    rw [Option.some.inj h]

theorem exitStmt_cases {c : ExitStmt} {rest : List ExitStmt}
    (h : c :: rest <:+ [.hrtimerCancel, .miscDeregister]) :
    c = .hrtimerCancel ∧ rest = [.miscDeregister] ∨ c = .miscDeregister ∧ rest = [] := by
  simpa using (List.mem_tails _ _).2 h

variable [DecidableEq F]

/-- A step of a driver that does not stop the timer in its release keeps it active from the first
open until `hello_exit` has cancelled it. -/
theorem TimerOk.step (hd : d ≠ .press .miniatureDriver) (ok : TimerOk run s) (h : Steps d s a t) :
    TimerOk (run ++ [a]) t := by
  cases h with
  | opens hexit =>
    have hnot : ¬ s.Cancelled := by simp [State.Cancelled, hexit]
    exact ⟨ok.exit, fun _ _ => Hrtimer.active_start, fun h => absurd h hnot⟩
  | release _ htimer =>
    obtain rfl := dmiscRelease_of_ne hd htimer
    exact ⟨ok.exit, fun hopen => ok.active (by simpa using hopen), ok.stopped⟩
  | expire htimer =>
    obtain ⟨hbefore, hafter⟩ := Hrtimer.active_of_expire htimer
    exact ⟨ok.exit, fun _ _ => hafter, fun h => absurd hbefore (ok.stopped h)⟩
  | @stmt c rest timer _ htimer =>
    refine ⟨ok.exit, fun hopen hnot => ?_, fun h => ?_⟩
    · exact (c.active_iff htimer).2 (ok.active (by simpa using hopen) hnot)
    · exact fun hactive => ok.stopped h ((c.active_iff htimer).1 hactive)
  | @exit rest hexit _ hrest =>
    obtain rfl := helloExit_of_ne hd hrest
    have hnot : ¬ s.Cancelled := by simp [State.Cancelled, hexit]
    refine ⟨by simp, fun hopen _ => ok.active (by simpa using hopen) hnot, ?_⟩
    rintro ⟨rest, ⟨⟩, hrest⟩
    simp at hrest
  | @exitStmt c rest timer hexit htimer =>
    have hsuffix := ok.exit _ hexit
    have hcancelled : ∃ rest', some rest = some rest' ∧ .hrtimerCancel ∉ rest' := by
      rcases exitStmt_cases hsuffix with ⟨-, rfl⟩ | ⟨-, rfl⟩ <;> exact ⟨_, rfl, by simp⟩
    refine ⟨?_, fun _ hnot => absurd hcancelled hnot, fun _ => ?_⟩
    · rintro _ ⟨⟩
      exact (List.suffix_cons c rest).trans hsuffix
    · rcases exitStmt_cases hsuffix with ⟨rfl, -⟩ | ⟨rfl, rfl⟩
      · exact Hrtimer.not_active_of_cancel htimer
      · obtain rfl := Option.some.inj htimer
        exact ok.stopped ⟨_, hexit, by simp⟩

/-- In every run the timer is active from the first open until `hello_exit` has cancelled it, and
not active from then on. -/
theorem reachable_timerOk (hd : d ≠ .press .miniatureDriver)
    (h : exec (step d) State.init run = some s) : TimerOk run s := by
  refine exec_induction ?_ (fun _ ok hstep => ok.step hd (steps_of_step hstep)) h
  exact ⟨by simp [State.init], by simp, fun _ => Hrtimer.not_active_init⟩

/-- **The timer runs from the first open until `hello_exit` has stopped it.** In every run of the
interrupt drivers, the timer is armed or its callback is running in every state after an open and
before `hello_exit`, and it is neither in every state after `hello_exit` has returned. -/
theorem armed_until_exit {F : Type} [DecidableEq F] (d : Driver) (hd : d ≠ .press .miniatureDriver)
    (run : List (Act F)) (s : State F) (h : exec (step d) State.init run = some s) :
    ((∃ f, .opens f ∈ run) → s.exit = none → s.timer.armed = true ∨ s.callback ≠ []) ∧
      (s.exit = some [] → s.timer.armed = false ∧ s.callback = []) := by
  have ok := reachable_timerOk hd h
  have hcallback := (reachable_callbackOk h).running
  constructor
  · intro hopen hexit
    rw [← hcallback]
    exact ok.active hopen (by simp [State.Cancelled, hexit])
  · intro hexit
    have hstopped := ok.stopped ⟨[], hexit, by simp⟩
    rwa [Hrtimer.Active, hcallback, not_or, Bool.not_eq_true, not_ne_iff] at hstopped

theorem armed_until_exit_two_files :
    (∃ s : State (Fin 2), exec (step .interrupt1Fasync) State.init
      [.opens 0, .expire, .stmt, .opens 1, .stmt, .release 0, .release 1] = some s ∧
      (s.timer.armed = true ∨ s.callback ≠ [])) ∧
    ∃ s : State (Fin 2), exec (step .interrupt1Fasync) State.init
      [.opens 0, .expire, .release 0, .exit, .stmt, .stmt, .stmt, .stmt, .stmt, .exitStmt,
        .exitStmt] = some s ∧ s.timer.armed = false ∧ s.callback = [] := by
  refine ⟨⟨_, rfl, ?_⟩, _, rfl, ?_⟩
  · exact (armed_until_exit .interrupt1Fasync (by decide)
      [.opens 0, .expire, .stmt, .opens 1, .stmt, .release 0, .release 1] _ rfl).1 ⟨0, by simp⟩ rfl
  · exact (armed_until_exit .interrupt1Fasync (by decide)
      [.opens 0, .expire, .release 0, .exit, .stmt, .stmt, .stmt, .stmt, .stmt, .exitStmt,
        .exitStmt] _ rfl).2 rfl

end Starrysky.Interrupt
