import Starrysky.Press.Flag

/-!
# Lost events

One process reads, and callbacks are not interrupted. An event is lost when the flag is down, no
read is in progress, and the callback that raised the flag last ran after the reader's last copy:
nobody will fetch its value. `dmisc_read` clears the flag after it has copied the value, so a
callback that runs between the two statements is cleared away unread. `no_event_lost_iff` says that
this is the only way to lose an event.
-/

namespace Starrysky.Press

open Transition

/-- The step of the only reader. -/
def read (r : ReadStep) : Whole Unit := .read () r

/-- No event is lost: when no read is in progress, a callback has run and the flag is down, the
reader has copied the value since the latest callback. -/
def NoEventLost (run : List (Whole Unit)) (s : State Unit) : Prop :=
  s.pc () = .idle → .callback ∈ run → s.dev.evPress = 0 → read .copy ∈ since .callback run

/-- At a clear, no callback has run since the read's copy. -/
def NoCallbackInWindow (run : List (Whole Unit)) (_ : State Unit) (a : Whole Unit) : Prop :=
  a = read .clear → .callback ∉ since (read .copy) run

instance (run : List (Whole Unit)) (s : State Unit) : Decidable (NoEventLost run s) :=
  inferInstanceAs (Decidable (_ → _ → _ → _))

instance (run : List (Whole Unit)) (s : State Unit) (a : Whole Unit) :
    Decidable (NoCallbackInWindow run s a) :=
  inferInstanceAs (Decidable (_ → _))

variable {d : Driver} {run : List (Whole Unit)} {s t : State Unit}

/-- A reader that is about to clear the flag has copied. -/
theorem copy_mem_of_copied (h : exec (wholeStep d) (State.init d) run = some s)
    (hpc : s.pc () = .copied) : read .copy ∈ run := by
  refine exec_induction (P := fun run s => s.pc () = .copied → read .copy ∈ run) ?_ ?_ h hpc
  · intro hpc
    cases hpc
  · intro run s a t _ ih hstep hpc
    cases wholeSteps_of_wholeStep hstep with
    | callback => exact List.mem_append_left _ (ih hpc)
    | read hr => cases hr with
      | pass | clear => simp at hpc
      | copy => simp [read]

/-- What the reader has copied since the latest callback is the value of the device. -/
theorem buf_eq_of_copy (h : exec (wholeStep d) (State.init d) run = some s)
    (hcopy : read .copy ∈ since .callback run) : s.buf () = some s.dev.value := by
  refine exec_induction
    (P := fun run s => read .copy ∈ since .callback run → s.buf () = some s.dev.value) ?_ ?_ h hcopy
  · intro hcopy
    simp at hcopy
  · intro run s a t _ ih hstep hcopy
    cases wholeSteps_of_wholeStep hstep with
    | callback => simp at hcopy
    | @read _ r _ hr =>
      rw [since_concat_of_ne (by simp), List.mem_append] at hcopy
      cases hr with
      | pass | clear =>
        have hcopy : read .copy ∈ since .callback run := by simpa [read] using hcopy
        simpa using ih hcopy
      | copy => simp

/-- **No event is lost exactly when no callback lands between a copy and its clear.** -/
theorem no_event_lost_iff (d : Driver) (run : List (Whole Unit)) (s : State Unit)
    (h : exec (wholeStep d) (State.init d) run = some s) :
    Throughout (wholeStep d) (State.init d) NoEventLost run ↔
      Meets (wholeStep d) (State.init d) NoCallbackInWindow run := by
  refine throughout_iff_meets ?_ ?_ ?_ h
  · intro _ hmem
    simp at hmem
  · intro run s a t hrun _ hwindow hstep hidle hcb hev
    cases wholeSteps_of_wholeStep hstep with
    | callback =>
      -- the flag is up
      exact absurd hev callback_pressed
    | read hr => cases hr with
      | pass | copy => simp at hidle
      | clear hpc =>
        have hcopy := copy_mem_of_copied hrun hpc
        have hlater : read .copy ∈ since .callback run :=
          (mem_since_iff (by simp [read]) hcopy).2 (hwindow rfl)
        rw [since_concat_of_ne (by simp)]
        exact List.mem_append_left _ hlater
  · rintro run s a t hrun hstep hlost rfl
    cases wholeSteps_of_wholeStep hstep with
    | read hr => cases hr with
      | clear hpc =>
        have hcopy := copy_mem_of_copied hrun hpc
        rw [← mem_since_iff (by simp [read]) hcopy]
        by_cases hcb : .callback ∈ run
        · have := hlost (by simp) (by simp [hcb]) (by simp)
          simpa [since_concat_of_ne, read] using this
        · rwa [since_of_notMem hcb]

theorem no_event_lost_read_twice :
    Throughout (wholeStep .interrupt3Epoll) (State.init .interrupt3Epoll) NoEventLost
      [.callback, read .pass, .callback, read .copy, read .clear, .callback, read .pass] := by
  obtain ⟨s, hs⟩ : ∃ s, exec (wholeStep .interrupt3Epoll) (State.init .interrupt3Epoll)
      [.callback, read .pass, .callback, read .copy, read .clear, .callback, read .pass] = some s :=
    ⟨_, rfl⟩
  exact (no_event_lost_iff _ _ s hs).2 (by decide +kernel)

/-- A callback lands between the copy and the clear. -/
def windowRun : List (Whole Unit) := [.callback, read .pass, read .copy, .callback, read .clear]

/-- It is lost, in each of the drivers. -/
theorem event_lost_in_window :
    ¬ Throughout (wholeStep .interrupt2Poll) (State.init .interrupt2Poll) NoEventLost windowRun ∧
    ¬ Throughout (wholeStep .interrupt3Epoll) (State.init .interrupt3Epoll) NoEventLost windowRun ∧
    ¬ Throughout (wholeStep .miniatureDriver) (State.init .miniatureDriver) NoEventLost
      windowRun := by
  decide +kernel

end Starrysky.Press
