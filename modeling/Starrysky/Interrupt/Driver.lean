import Starrysky.Press.Device
import Starrysky.Lib.Hrtimer
import Starrysky.Lib.Transition
import Mathlib.Data.Finset.Erase
import Mathlib.Data.Finset.Insert

/-!
# The timer of the interrupt drivers

`interrupt-1-fasync`, `interrupt-2-poll`, `interrupt-3-epoll` and `miniature_driver` (one bound
device) run on one timer: `dmisc_open` starts it, the callback forwards and restarts it, and it is
stopped in `hello_exit`, by `miniature_driver` in `dmisc_release`. The machine interleaves opens and
releases of any number of files with the statements of the callback and of `hello_exit`. It starts
when `hello_init` has returned 0, and the callback runs one statement at a time. The intervals are
left out, and so is what the callback does besides the timer.
-/

namespace Starrysky.Interrupt

open Transition

inductive Driver where
  | interrupt1Fasync
  | press (d : Press.Driver)
  deriving DecidableEq

/-- The statements of the callbacks. -/
inductive Stmt where
  | press (c : Press.Stmt)
  /-- `kill_fasync(&async_queue, SIGIO, POLL_IN)` -/
  | killFasync
  deriving DecidableEq

/-- The statements of `hrtimer_hander_interrupt` in each driver. -/
def hrtimerHanderInterrupt : Driver → List Stmt
  | .interrupt1Fasync =>
    [.press (.mdelay 1000), .press (.setKt 0 1000000), .press .forwardNow, .killFasync,
      .press .restart]
  | .press d => (Press.hrtimerHanderInterrupt d).map .press

/-- The statements of `hello_exit`. -/
inductive ExitStmt where
  | hrtimerCancel
  | miscDeregister
  deriving DecidableEq

/-- `hello_exit`, which `miniature_driver` has none of. -/
def helloExit : Driver → Option (List ExitStmt)
  | .interrupt1Fasync | .press .interrupt2Poll | .press .interrupt3Epoll =>
    some [.hrtimerCancel, .miscDeregister]
  | .press .miniatureDriver => none

/-- The timer, the statements that a running callback has yet to run (none, when no callback runs),
the open files, and the statements that `hello_exit` has yet to run, if it has begun. -/
structure State (F : Type) where
  timer : Hrtimer
  callback : List Stmt
  opened : Finset F
  exit : Option (List ExitStmt)

variable {F : Type}

/-- `hello_init` has returned 0, `hello_probe` in `miniature_driver`. -/
def State.init : State F := { timer := .init, callback := [], opened := ∅, exit := none }

inductive Act (F : Type) where
  /-- `dmisc_open` -/
  | opens (f : F)
  /-- `dmisc_release` -/
  | release (f : F)
  /-- the timer expires -/
  | expire
  /-- the callback runs its next statement -/
  | stmt
  /-- `hello_exit` is called -/
  | exit
  /-- `hello_exit` runs its next statement -/
  | exitStmt
  deriving DecidableEq

/-- What a statement of the callback does to the timer. `hrtimer_forward_now` moves the expiry of a
timer that is not enqueued. -/
def Stmt.timer : Stmt → Hrtimer → Option Hrtimer
  | .press .restart, timer => timer.restart
  | .press (.mdelay _), timer | .press .toggleValue, timer | .press (.setKt ..), timer
  | .press .forwardNow, timer | .press .setPress, timer | .press .wakeUp, timer
  | .killFasync, timer => some timer

/-- What `dmisc_release` does to the timer. -/
def dmiscRelease : Driver → Hrtimer → Option Hrtimer
  | .press .miniatureDriver, timer => timer.cancel
  | .interrupt1Fasync, timer | .press .interrupt2Poll, timer | .press .interrupt3Epoll, timer =>
    some timer

def ExitStmt.timer : ExitStmt → Hrtimer → Option Hrtimer
  | .hrtimerCancel, timer => timer.cancel
  | .miscDeregister, timer => some timer

/-! ## The running callback -/

variable {d : Driver} {s : State F} {timer timer' : Hrtimer}

theorem Stmt.timer_of_ne {c : Stmt} (h : c ≠ .press .restart) : c.timer timer = some timer := by
  cases c with
  | killFasync => rfl
  | press c =>
    cases c with
    | restart => exact absurd rfl h
    | mdelay | toggleValue | setKt | forwardNow | setPress | wakeUp => rfl

/-- The restart of the timer is the last statement of every callback, and no other. -/
theorem restart_iff {c : Stmt} {rest : List Stmt} (h : c :: rest <:+ hrtimerHanderInterrupt d) :
    c = .press .restart ↔ rest = [] := by
  have htails : ∀ l ∈ (hrtimerHanderInterrupt d).tails,
      l.head? = some (.press .restart) ↔ l.length = 1 := by
    cases d with
    | interrupt1Fasync => decide
    | press d =>
      cases d with
      | interrupt2Poll | interrupt3Epoll | miniatureDriver => decide
  simpa using htails _ ((List.mem_tails _ _).2 h)

/-- A release or a statement of `hello_exit` that does something to the timer has waited for the
callback. -/
theorem dmiscRelease_eq (h : dmiscRelease d timer = some timer') :
    timer' = timer ∨ timer.running = false ∧ timer' = .init := by
  unfold dmiscRelease at h
  split at h
  · exact .inr (Hrtimer.cancel_eq_some.1 h)
  all_goals exact .inl (Option.some.inj h).symm

theorem ExitStmt.timer_eq {c : ExitStmt} (h : c.timer timer = some timer') :
    timer' = timer ∨ timer.running = false ∧ timer' = .init := by
  cases c with
  | hrtimerCancel => exact .inr (Hrtimer.cancel_eq_some.1 h)
  | miscDeregister => exact .inl (Option.some.inj h).symm

/-- The callback that runs is a rest of the driver's, and the timer knows of it. -/
structure CallbackOk (d : Driver) (s : State F) : Prop where
  suffix : s.callback <:+ hrtimerHanderInterrupt d
  running : s.timer.running = true ↔ s.callback ≠ []

/-- What stops the timer has waited for the callback. -/
theorem CallbackOk.of_timer (ok : CallbackOk d s)
    (h : timer = s.timer ∨ s.timer.running = false ∧ timer = .init) :
    CallbackOk d { s with timer } := by
  refine ⟨ok.suffix, ?_⟩
  rcases h with rfl | ⟨hrunning, rfl⟩
  · exact ok.running
  · rw [← ok.running, hrunning]
    rfl

/-- While the callback runs, nothing but the callback stops the timer. -/
theorem CallbackOk.timer_eq (ok : CallbackOk d s)
    (hne : s.callback ≠ [])
    (h : timer = s.timer ∨ s.timer.running = false ∧ timer = .init) : timer = s.timer := by
  have hrunning := ok.running.2 hne
  rcases h with h | ⟨hnot, -⟩
  · exact h
  · simp [hrunning] at hnot

variable [DecidableEq F]

/-- A step of the driver `d`. The open files hold the module, so that `hello_exit` begins when no
file is open, and no open succeeds after it has begun. -/
def step (d : Driver) (s : State F) : Act F → Option (State F)
  | .opens f =>
    if s.exit = none ∧ f ∉ s.opened then
      some { s with timer := s.timer.start, opened := insert f s.opened }
    else none
  | .release f =>
    if f ∈ s.opened then
      (dmiscRelease d s.timer).map fun timer => { s with timer, opened := s.opened.erase f }
    else none
  | .expire => s.timer.expire.map fun timer =>
    { s with timer, callback := hrtimerHanderInterrupt d }
  | .stmt =>
    match s.callback with
    | [] => none
    | c :: rest => (c.timer s.timer).map fun timer => { s with timer, callback := rest }
  | .exit =>
    if s.exit = none ∧ s.opened = ∅ then
      (helloExit d).map fun rest => { s with exit := some rest }
    else none
  | .exitStmt =>
    match s.exit with
    | none | some [] => none
    | some (c :: rest) => (c.timer s.timer).map fun timer => { s with timer, exit := some rest }

/-! ## What a step can do -/

/-- The steps of the driver, with what enables them. -/
inductive Steps (d : Driver) (s : State F) : Act F → State F → Prop
  | opens {f : F} : s.exit = none → f ∉ s.opened →
    Steps d s (.opens f) { s with timer := s.timer.start, opened := insert f s.opened }
  | release {f : F} {timer : Hrtimer} : f ∈ s.opened → dmiscRelease d s.timer = some timer →
    Steps d s (.release f) { s with timer, opened := s.opened.erase f }
  | expire {timer : Hrtimer} : s.timer.expire = some timer →
    Steps d s .expire { s with timer, callback := hrtimerHanderInterrupt d }
  | stmt {c : Stmt} {rest : List Stmt} {timer : Hrtimer} : s.callback = c :: rest →
    c.timer s.timer = some timer → Steps d s .stmt { s with timer, callback := rest }
  | exit {rest : List ExitStmt} : s.exit = none → s.opened = ∅ → helloExit d = some rest →
    Steps d s .exit { s with exit := some rest }
  | exitStmt {c : ExitStmt} {rest : List ExitStmt} {timer : Hrtimer} : s.exit = some (c :: rest) →
    c.timer s.timer = some timer → Steps d s .exitStmt { s with timer, exit := some rest }

variable {t : State F} {a : Act F}

theorem steps_of_step (h : step d s a = some t) : Steps d s a t := by
  cases a with
  | opens f =>
    obtain ⟨⟨hexit, hf⟩, ⟨⟩⟩ := Option.ite_none_right_eq_some.1 h
    exact .opens hexit hf
  | release f =>
    obtain ⟨hf, h⟩ := Option.ite_none_right_eq_some.1 h
    obtain ⟨timer, htimer, ⟨⟩⟩ := Option.map_eq_some_iff.1 h
    exact .release hf htimer
  | expire =>
    obtain ⟨timer, htimer, ⟨⟩⟩ := Option.map_eq_some_iff.1 h
    exact .expire htimer
  | stmt =>
    simp only [step] at h
    split at h
    · cases h
    · next hcallback =>
      obtain ⟨timer, htimer, ⟨⟩⟩ := Option.map_eq_some_iff.1 h
      exact .stmt hcallback htimer
  | exit =>
    obtain ⟨⟨hexit, hopened⟩, h⟩ := Option.ite_none_right_eq_some.1 h
    obtain ⟨rest, hrest, ⟨⟩⟩ := Option.map_eq_some_iff.1 h
    exact .exit hexit hopened hrest
  | exitStmt =>
    simp only [step] at h
    split at h
    · cases h
    · cases h
    · next hexit =>
      obtain ⟨timer, htimer, ⟨⟩⟩ := Option.map_eq_some_iff.1 h
      exact .exitStmt hexit htimer

/-- A step leaves a rest of the driver's callback to run, and the timer marked as running as long as
there is one. -/
theorem CallbackOk.step (ok : CallbackOk d s) (h : Steps d s a t) : CallbackOk d t := by
  cases h with
  | opens => exact ⟨ok.suffix, ok.running⟩
  | release _ htimer =>
    have ok := ok.of_timer (dmiscRelease_eq htimer)
    exact ⟨ok.suffix, ok.running⟩
  | expire htimer =>
    obtain ⟨-, ⟨⟩⟩ := Option.ite_none_right_eq_some.1 htimer
    refine ⟨List.suffix_rfl, ?_⟩
    cases d with
    | interrupt1Fasync => simp [hrtimerHanderInterrupt]
    | press d => cases d <;> simp [hrtimerHanderInterrupt, Press.hrtimerHanderInterrupt]
  | @stmt c rest timer hcallback htimer =>
    have hsuffix : c :: rest <:+ hrtimerHanderInterrupt d := hcallback ▸ ok.suffix
    have hrunning : s.timer.running = true := ok.running.2 (by simp [hcallback])
    refine ⟨(List.suffix_cons c rest).trans hsuffix, ?_⟩
    by_cases hc : c = .press .restart
    · obtain rfl := (restart_iff hsuffix).1 hc
      subst hc
      obtain ⟨-, ⟨⟩⟩ := Option.ite_none_right_eq_some.1 htimer
      simp
    · rw [Stmt.timer_of_ne hc] at htimer
      obtain rfl := Option.some.inj htimer
      simp [hrunning, ← restart_iff hsuffix, hc]
  | exit => exact ⟨ok.suffix, ok.running⟩
  | exitStmt _ htimer =>
    have ok := ok.of_timer (ExitStmt.timer_eq htimer)
    exact ⟨ok.suffix, ok.running⟩

/-- In every run what is left of the callback is a rest of the driver's, and the timer is marked as
running as long as there is one. -/
theorem reachable_callbackOk {run : List (Act F)} (h : exec (step d) State.init run = some s) :
    CallbackOk d s := by
  refine exec_induction (P := fun _ s => CallbackOk d s) ?_ ?_ h
  · exact ⟨List.nil_suffix, by simp [State.init, Hrtimer.init]⟩
  · exact fun _ ok hstep => ok.step (steps_of_step hstep)

end Starrysky.Interrupt
