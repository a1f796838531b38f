import Starrysky.Interrupt.Driver
import Mathlib.Data.Fintype.Basic

/-!
# Forwarding the timer

`hrtimer_forward_now` is for a timer that is not enqueued. The expiry has dequeued the timer when
the callback begins, but an open beside the running callback enqueues it again. No other step does
before the callback restarts the timer, so that the timer is enqueued at the forward exactly if a
file has been opened since the expiry (`notEnqueued_iff`).
-/

namespace Starrysky.Interrupt

open Transition

variable {F : Type} [DecidableEq F] {d : Driver} {s t : State F} {a : Act F} {run : List (Act F)}

/-- The timer is not enqueued when the callback forwards it. -/
def NotEnqueued (_ : List (Act F)) (s : State F) (a : Act F) : Prop :=
  a = .stmt → s.callback.head? = some (.press .forwardNow) → s.timer.armed = false

/-- No file has been opened since the expiry when the callback forwards the timer. -/
def NoOpenSinceExpiry (run : List (Act F)) (s : State F) (a : Act F) : Prop :=
  a = .stmt → s.callback.head? = some (.press .forwardNow) → ∀ f, .opens f ∉ since .expire run

/-- Until the callback has forwarded the timer, only an open since the expiry enqueues it. -/
def EnqueuedByOpen (run : List (Act F)) (s : State F) : Prop :=
  .press .forwardNow ∈ s.callback → (s.timer.armed = true ↔ ∃ f, .opens f ∈ since .expire run)

/-- Until the callback forwards the timer, a step leaves it enqueued exactly if a file has been
opened since the expiry. -/
theorem EnqueuedByOpen.step (h : EnqueuedByOpen run s) (ok : CallbackOk d s) (hs : Steps d s a t) :
    EnqueuedByOpen (run ++ [a]) t := by
  intro hforward
  have hne := List.ne_nil_of_mem hforward
  cases hs with
  | @opens f =>
    rw [since_concat_of_ne (by simp)]
    exact ⟨fun _ => ⟨f, by simp⟩, fun _ => rfl⟩
  | release _ htimer =>
    obtain rfl := ok.timer_eq hne (dmiscRelease_eq htimer)
    rw [since_concat_of_ne (by simp)]
    simpa using h hforward
  | expire htimer =>
    obtain ⟨-, ⟨⟩⟩ := Option.ite_none_right_eq_some.1 htimer
    simp
  | @stmt c rest timer hcallback htimer =>
    -- the restart comes last, after the forward
    have hc : c ≠ .press .restart := by
      rw [ne_eq, restart_iff (hcallback ▸ ok.suffix)]
      exact hne
    rw [Stmt.timer_of_ne hc] at htimer
    obtain rfl := Option.some.inj htimer
    rw [since_concat_of_ne (by simp)]
    simpa using h (hcallback ▸ List.mem_cons_of_mem c hforward)
  | exit =>
    rw [since_concat_of_ne (by simp)]
    simpa using h hforward
  | exitStmt _ htimer =>
    obtain rfl := ok.timer_eq hne (ExitStmt.timer_eq htimer)
    rw [since_concat_of_ne (by simp)]
    simpa using h hforward

/-- In every run, until the callback has forwarded the timer, it is enqueued exactly if a file has
been opened since the expiry. -/
theorem reachable_enqueuedByOpen (h : exec (step d) State.init run = some s) :
    EnqueuedByOpen run s := by
  refine exec_induction ?_ ?_ h
  · intro hforward
    simp [State.init] at hforward
  · intro run s a t hrun hs hstep
    exact hs.step (reachable_callbackOk hrun) (steps_of_step hstep)

/-- **The timer is enqueued at the forward exactly when an open falls into the callback.** In a run
of any number of clients, `hrtimer_forward_now` is only applied to a timer that is not enqueued, if
and only if no callback forwards the timer after an open that came since its expiry. -/
theorem notEnqueued_iff {F : Type} [DecidableEq F] (d : Driver) (run : List (Act F)) (s : State F)
    (h : exec (step d) State.init run = some s) :
    Meets (step d) State.init NotEnqueued run ↔
      Meets (step d) State.init NoOpenSinceExpiry run := by
  have hstep : ∀ {run s a}, exec (step d) (State.init : State F) run = some s →
      (NotEnqueued run s a ↔ NoOpenSinceExpiry run s a) := by
    intro run s a hrun
    refine forall_congr' fun _ => forall_congr' fun hhead => ?_
    have henqueued := reachable_enqueuedByOpen hrun (List.mem_of_mem_head? hhead)
    rw [← Bool.not_eq_true, henqueued, not_exists]
  exact meets_iff_meets (I := fun _ _ => True) trivial (fun _ _ _ _ => trivial)
    (fun hrun _ hno _ => (hstep hrun).2 hno) (fun hrun _ hnot => (hstep hrun).1 hnot) h

instance [Fintype F] (run : List (Act F)) (s : State F) (a : Act F) :
    Decidable (NoOpenSinceExpiry run s a) :=
  inferInstanceAs (Decidable (_ → _ → _))

instance (run : List (Act F)) (s : State F) (a : Act F) : Decidable (NotEnqueued run s a) :=
  inferInstanceAs (Decidable (_ → _ → _))

theorem notEnqueued_open_after_forward :
    Meets (step (.press .interrupt2Poll)) (State.init : State (Fin 2)) NotEnqueued
      [.opens 0, .expire, .stmt, .stmt, .stmt, .opens 1, .stmt, .stmt, .stmt, .stmt] := by
  obtain ⟨s, hs⟩ : ∃ s, exec (step (.press .interrupt2Poll)) (State.init : State (Fin 2))
      [.opens 0, .expire, .stmt, .stmt, .stmt, .opens 1, .stmt, .stmt, .stmt, .stmt] = some s :=
    ⟨_, rfl⟩
  exact (notEnqueued_iff _ _ s hs).2 (by decide +kernel)

/-- A second client opens the device while the callback of the first one's timer runs. -/
theorem not_notEnqueued_open_in_callback :
    (exec (step .interrupt1Fasync) (State.init : State (Fin 2))
      [.opens 0, .expire, .opens 1, .stmt, .stmt, .stmt]).isSome ∧
    ¬ Meets (step .interrupt1Fasync) (State.init : State (Fin 2)) NotEnqueued
      [.opens 0, .expire, .opens 1, .stmt, .stmt, .stmt] ∧
    ¬ Meets (step (.press .interrupt2Poll)) (State.init : State (Fin 2)) NotEnqueued
      [.opens 0, .expire, .opens 1, .stmt, .stmt, .stmt] ∧
    ¬ Meets (step (.press .interrupt3Epoll)) (State.init : State (Fin 2)) NotEnqueued
      [.opens 0, .expire, .opens 1, .stmt, .stmt, .stmt] ∧
    ¬ Meets (step (.press .miniatureDriver)) (State.init : State (Fin 2)) NotEnqueued
      [.opens 0, .expire, .opens 1, .stmt, .stmt, .stmt] := by
  decide +kernel

end Starrysky.Interrupt
