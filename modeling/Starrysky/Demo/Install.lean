import Starrysky.Lib.Hrtimer
import Starrysky.Lib.Transition
import Starrysky.Press.Device

/-!
# The callback of the timer demos

`hrtimer_demo_init` of `hrtimer-1-demo` and of `hrtimer-2-moduleparam` starts the timer and then
installs its callback, where the interrupt drivers install the callback first. The machine
interleaves the statements of the init, which may be preempted between any two, with time, expiries,
the callback and `hrtimer_demo_exit`. Once the timer is started it is armed without a function until
the last statement of the init, and an expiry in between calls NULL (`installed_iff`); for that the
init must have been preempted for as long as the first interval (`interval_le_elapsed`).
-/

namespace Starrysky.Demo

open Transition Press

/-- The programs. -/
inductive Program where
  | hrtimer1Demo
  | hrtimer2Moduleparam
  deriving DecidableEq

/-- The statements of `hrtimer_hander`, which `hrtimer-2-moduleparam` adds more output to. -/
def hrtimerHander : Program → List Stmt
  | .hrtimer1Demo | .hrtimer2Moduleparam => [.mdelay 1000, .setKt 0 1000000, .forwardNow, .restart]

inductive InitStmt where
  /-- `kt = ktime_set(1, 10)` -/
  | setKt
  /-- `hrtimer_init(&timer, CLOCK_MONOTONIC, HRTIMER_MODE_REL)` -/
  | hrtimerInit
  /-- `hrtimer_start(&timer, kt, HRTIMER_MODE_REL)` -/
  | hrtimerStart
  /-- `timer.function = hrtimer_hander` -/
  | setFunction
  deriving DecidableEq

/-- The statements of `hrtimer_demo_init`. -/
def hrtimerDemoInit : List InitStmt := [.setKt, .hrtimerInit, .hrtimerStart, .setFunction]

/-- The time in nanoseconds, the interval, the timer with its expiry and its function (`none` is
NULL), and the statements that the init and a running callback have yet to run. `stmtAt` is when the
callback has come to its next statement, and `oops` that an expiry has called NULL, which ends the
run. -/
structure State where
  now : ℤ
  kt : ℤ
  timer : Hrtimer
  expires : ℤ
  function : Option (List Stmt)
  init : List InitStmt
  callback : List Stmt
  stmtAt : ℤ
  exited : Bool
  oops : Bool

/-- The module is loaded. -/
def State.start : State :=
  { now := 0, kt := 0, timer := .init, expires := 0, function := none, init := hrtimerDemoInit,
    callback := [], stmtAt := 0, exited := false, oops := false }

inductive Act where
  /-- time passes -/
  | tick (nsecs : ℕ)
  /-- `hrtimer_demo_init` runs its next statement -/
  | init
  /-- the timer expires -/
  | expire
  /-- the callback runs its next statement -/
  | stmt
  /-- `hrtimer_demo_exit` -/
  | exit
  deriving DecidableEq

/-- What a statement of the init does. `hrtimer_init` clears the whole timer. -/
def InitStmt.exec (d : Program) (s : State) : InitStmt → State
  | .setKt => { s with kt := ktimeSet 1 10 }
  | .hrtimerInit => { s with timer := .init, expires := 0, function := none }
  | .hrtimerStart => { s with timer := s.timer.start, expires := s.now + s.kt }
  | .setFunction => { s with function := some (hrtimerHander d) }

/-- What a statement of the callback does to the timer, its expiry and the interval. -/
def execStmt (s : State) : Stmt → Option State
  | .mdelay msecs => if s.stmtAt + msecs * 1000000 ≤ s.now then some s else none
  | .setKt secs nsecs => some { s with kt := ktimeSet secs nsecs }
  | .forwardNow =>
    if s.timer.armed = true then some s
    else some { s with expires := Hrtimer.forward s.now s.kt s.expires }
  | .restart => s.timer.restart.map fun timer => { s with timer }
  | .toggleValue | .setPress | .wakeUp => some s

/-- A step of a module that has not crashed. An expiry calls the function that the timer has. -/
def next (d : Program) (s : State) : Act → Option State
  | .tick nsecs => some { s with now := s.now + nsecs }
  | .init =>
    match s.init with
    | [] => none
    | c :: rest => some { c.exec d s with init := rest }
  | .expire =>
    if s.expires ≤ s.now then
      s.timer.expire.map fun timer =>
        match s.function with
        | none => { s with timer, oops := true }
        | some body => { s with timer, callback := body, stmtAt := s.now }
    else none
  | .stmt =>
    match s.callback with
    | [] => none
    | c :: rest => (execStmt s c).map fun t => { t with callback := rest, stmtAt := s.now }
  | .exit =>
    if s.init = [] ∧ s.exited = false then
      s.timer.cancel.map fun timer => { s with timer, exited := true }
    else none

def step (d : Program) (s : State) (a : Act) : Option State := if s.oops then none else next d s a

def Act.nsecs : Act → ℤ
  | .tick nsecs => nsecs
  | .init | .expire | .stmt | .exit => 0

/-- The time that passes in a run. -/
def elapsed : List Act → ℤ
  | [] => 0
  | a :: run => a.nsecs + elapsed run

/-- An armed timer has the callback of the module for its function. -/
def Installed (d : Program) (_ : List Act) (s : State) : Prop :=
  s.timer.armed = true → s.function = some (hrtimerHander d)

/-- No expiry has called NULL. -/
def NoOops (_ : List Act) (s : State) : Prop := s.oops = false

/-- The init does not start the timer. -/
def NotStarting (_ : List Act) (s : State) (a : Act) : Prop :=
  a = .init → s.init.head? ≠ some .hrtimerStart

/-- The timer expires only when the init has run all of its statements. -/
def ExpiresAfterInit (_ : List Act) (s : State) (a : Act) : Prop := a = .expire → s.init = []

/-! ## What a step can do -/

variable {d : Program} {s t : State} {a : Act} {run : List Act}

/-- The steps, with what enables them. -/
inductive Steps (d : Program) (s : State) : Act → State → Prop
  | tick {nsecs : ℕ} : Steps d s (.tick nsecs) { s with now := s.now + nsecs }
  | init {c : InitStmt} {rest : List InitStmt} : s.init = c :: rest →
    Steps d s .init { c.exec d s with init := rest }
  | expire {timer : Hrtimer} {body : List Stmt} : s.expires ≤ s.now → s.timer.expire = some timer →
    s.function = some body → Steps d s .expire { s with timer, callback := body, stmtAt := s.now }
  | oops {timer : Hrtimer} : s.expires ≤ s.now → s.timer.expire = some timer → s.function = none →
    Steps d s .expire { s with timer, oops := true }
  | stmt {c : Stmt} {rest : List Stmt} {t : State} : s.callback = c :: rest →
    execStmt s c = some t → Steps d s .stmt { t with callback := rest, stmtAt := s.now }
  | exit {timer : Hrtimer} : s.init = [] → s.timer.cancel = some timer →
    Steps d s .exit { s with timer, exited := true }

theorem steps_of_step (h : step d s a = some t) : s.oops = false ∧ Steps d s a t := by
  obtain ⟨hoops, h⟩ := Option.ite_none_left_eq_some.1 h
  refine ⟨by simpa using hoops, ?_⟩
  cases a with
  | tick => cases h; exact .tick
  | init =>
    simp only [next] at h
    split at h
    · cases h
    · next hinit => cases h; exact .init hinit
  | expire =>
    obtain ⟨hle, h⟩ := Option.ite_none_right_eq_some.1 h
    obtain ⟨timer, htimer, rfl⟩ := Option.map_eq_some_iff.1 h
    cases hfunction : s.function with
    | none => simpa [hfunction] using Steps.oops (d := d) hle htimer hfunction
    | some body => simpa [hfunction] using Steps.expire (d := d) hle htimer hfunction
  | stmt =>
    simp only [next] at h
    split at h
    · cases h
    · next hcallback =>
      obtain ⟨t, ht, rfl⟩ := Option.map_eq_some_iff.1 h
      exact .stmt hcallback ht
  | exit =>
    obtain ⟨⟨hinit, -⟩, h⟩ := Option.ite_none_right_eq_some.1 h
    obtain ⟨timer, htimer, rfl⟩ := Option.map_eq_some_iff.1 h
    exact .exit hinit htimer

/-! ## What holds in every run -/

/-- The timer has not been started. -/
structure Before (s : State) : Prop where
  timer : s.timer = .init
  function : s.function = none
  callback : s.callback = []
  oops : s.oops = false

/-- The timer has been started without a function: it is armed until an expiry calls NULL. -/
structure Between (run : List Act) (s : State) : Prop where
  function : s.function = none
  callback : s.callback = []
  armed : s.timer.armed = true ↔ s.oops = false
  expires : s.expires = s.now + ktimeSet 1 10 - elapsed (since .init run)

/-- Where the module stands, by the statements that the init has yet to run. -/
inductive Inside (d : Program) (run : List Act) (s : State) : List InitStmt → Prop
  | setKt : Before s → Inside d run s hrtimerDemoInit
  | hrtimerInit : Before s → s.kt = ktimeSet 1 10 →
    Inside d run s [.hrtimerInit, .hrtimerStart, .setFunction]
  | hrtimerStart : Before s → s.kt = ktimeSet 1 10 → Inside d run s [.hrtimerStart, .setFunction]
  | setFunction : Between run s → Inside d run s [.setFunction]
  | finished : s.function = some (hrtimerHander d) → s.oops = false → Inside d run s []

theorem elapsed_concat : elapsed (run ++ [a]) = elapsed run + a.nsecs := by
  induction run with
  | nil => simp [elapsed]
  | cons b run ih => simp [elapsed, ih, Int.add_assoc]

theorem Before.not_expire {timer : Hrtimer} (h : Before s) : s.timer.expire ≠ some timer := by
  simp [h.timer, Hrtimer.expire, Hrtimer.init]

/-- Until the init has installed it, the timer has no function, and no callback runs. -/
theorem Inside.unset {rest : List InitStmt} (hs : Inside d run s rest) (hne : rest ≠ []) :
    s.function = none ∧ s.callback = [] := by
  cases hs with
  | setKt h => exact ⟨h.function, h.callback⟩
  | hrtimerInit h | hrtimerStart h => exact ⟨h.function, h.callback⟩
  | setFunction h => exact ⟨h.function, h.callback⟩
  | finished => exact absurd rfl hne

theorem Inside.set (hs : Inside d run s []) : s.function = some (hrtimerHander d) := by
  cases hs with
  | finished h => exact h

/-- Only the init that has run all of its statements leaves a function or a running callback. -/
theorem Inside.init_eq_nil (hs : Inside d run s s.init) (h : s.function ≠ none ∨ s.callback ≠ []) :
    s.init = [] := by
  by_contra hne
  obtain ⟨hfunction, hcallback⟩ := hs.unset hne
  exact h.elim (fun h => h hfunction) fun h => h hcallback

/-- The timer expires only when it has been started. -/
theorem Inside.of_expire {rest : List InitStmt} {timer : Hrtimer} (hs : Inside d run s rest)
    (h : s.timer.expire = some timer) : rest = [] ∨ rest = [.setFunction] := by
  cases hs with
  | setKt hbefore => exact absurd h hbefore.not_expire
  | hrtimerInit hbefore | hrtimerStart hbefore => exact absurd h hbefore.not_expire
  | setFunction => exact .inr rfl
  | finished => exact .inl rfl

/-- An expiry that finds no function comes between the start of the timer and the last statement of
the init. -/
theorem Inside.gap_of_expire {timer : Hrtimer} (hs : Inside d run s s.init)
    (h : s.timer.expire = some timer) (hfunction : s.function = none) :
    s.init = [.setFunction] := by
  refine (hs.of_expire h).resolve_left fun hinit => ?_
  simp [(hinit ▸ hs : Inside d run s []).set] at hfunction

theorem execStmt_eq {c : Stmt} (h : execStmt s c = some t) :
    t.function = s.function ∧ t.init = s.init ∧ t.oops = s.oops := by
  cases c with
  | toggleValue | setPress | wakeUp | setKt => cases h; exact ⟨rfl, rfl, rfl⟩
  | mdelay =>
    obtain ⟨-, ⟨⟩⟩ := Option.ite_none_right_eq_some.1 h
    exact ⟨rfl, rfl, rfl⟩
  | forwardNow =>
    simp only [execStmt] at h
    split at h <;> cases h <;> exact ⟨rfl, rfl, rfl⟩
  | restart =>
    obtain ⟨timer, -, rfl⟩ := Option.map_eq_some_iff.1 h
    exact ⟨rfl, rfl, rfl⟩

/-- A statement of the init. -/
theorem Inside.init {c : InitStmt} {rest : List InitStmt} (hs : Inside d run s (c :: rest))
    (hoops : s.oops = false) : Inside d (run ++ [.init]) { c.exec d s with init := rest } rest := by
  cases hs with
  | setKt h => exact .hrtimerInit ⟨h.timer, h.function, h.callback, h.oops⟩ rfl
  | hrtimerInit h hkt => exact .hrtimerStart ⟨rfl, rfl, h.callback, h.oops⟩ hkt
  | hrtimerStart h hkt =>
    refine .setFunction ⟨h.function, h.callback, ?_, ?_⟩
    · exact iff_of_true rfl h.oops
    · simp [InitStmt.exec, hkt, elapsed]
  | setFunction h => exact .finished rfl hoops

/-- A step leads from what holds before a statement of the init to what holds before the next one.
-/
theorem Inside.step (hs : Inside d run s s.init) (hoops : s.oops = false) (h : Steps d s a t) :
    Inside d (run ++ [a]) t t.init := by
  cases h with
  | @tick nsecs =>
    show Inside d _ _ s.init
    generalize s.init = rest at hs ⊢
    cases hs with
    | setKt h => exact .setKt ⟨h.timer, h.function, h.callback, h.oops⟩
    | hrtimerInit h hkt => exact .hrtimerInit ⟨h.timer, h.function, h.callback, h.oops⟩ hkt
    | hrtimerStart h hkt => exact .hrtimerStart ⟨h.timer, h.function, h.callback, h.oops⟩ hkt
    | setFunction h =>
      refine .setFunction ⟨h.function, h.callback, h.armed, ?_⟩
      rw [since_concat_of_ne (by simp), elapsed_concat, h.expires, Act.nsecs]
      dsimp only
      omega
    | finished h => exact .finished h hoops
  | init hinit => exact (hinit ▸ hs).init hoops
  | expire hle htimer hfunction =>
    have hinit : s.init = [] := hs.init_eq_nil (.inl (by simp [hfunction]))
    show Inside d _ _ s.init
    rw [hinit] at hs ⊢
    exact .finished hs.set hoops
  | oops hle htimer hfunction =>
    show Inside d _ _ s.init
    have hgap : s.init = [.setFunction] := hs.gap_of_expire htimer hfunction
    rw [hgap] at hs ⊢
    obtain ⟨-, ⟨⟩⟩ := Option.ite_none_right_eq_some.1 htimer
    cases hs with
    | setFunction h =>
      refine .setFunction ⟨h.function, h.callback, by simp, ?_⟩
      rw [since_concat_of_ne (by simp), elapsed_concat, h.expires, Act.nsecs, Int.add_zero]
  | @stmt c rest u hcallback hstmt =>
    have hinit : s.init = [] := hs.init_eq_nil (.inr (by simp [hcallback]))
    obtain ⟨hfunction, hrest, hoops'⟩ := execStmt_eq hstmt
    show Inside d _ _ u.init
    rw [hinit] at hs
    rw [hrest, hinit]
    exact .finished (hfunction.trans hs.set) (hoops'.trans hoops)
  | exit hinit htimer =>
    show Inside d _ _ s.init
    rw [hinit] at hs ⊢
    exact .finished hs.set hoops

/-- In every run, what the statements of the init so far have set is as they left it. -/
theorem reachable_inside (h : exec (step d) .start run = some s) : Inside d run s s.init := by
  refine exec_induction (P := fun run s => Inside d run s s.init) ?_ ?_ h
  · exact .setKt ⟨rfl, rfl, rfl, rfl⟩
  · intro run s a t _ hs hstep
    obtain ⟨hoops, hsteps⟩ := steps_of_step hstep
    exact hs.step hoops hsteps

/-! ## The gap between the start and the function -/

/-- Only between the two statements an armed timer has no function. -/
theorem Inside.armed_gap_iff (hs : Inside d run s s.init) :
    Installed d run s ↔ s.init = [.setFunction] → s.oops = true := by
  unfold Installed
  generalize s.init = rest at hs ⊢
  cases hs with
  | setKt h => simp [h.timer, Hrtimer.init, hrtimerDemoInit]
  | hrtimerInit h | hrtimerStart h => simp [h.timer, Hrtimer.init]
  | setFunction h => simp [h.function, h.armed]
  | finished h => simp [h]

/-- What enables the expiry, whatever it calls. -/
theorem Steps.enabled_of_expire (h : Steps d s .expire t) :
    s.expires ≤ s.now ∧ ∃ timer, s.timer.expire = some timer := by
  cases h with
  | expire hle htimer => exact ⟨hle, _, htimer⟩
  | oops hle htimer => exact ⟨hle, _, htimer⟩

theorem Steps.init_of_expire (h : Steps d s .expire t) (hs : Inside d run s s.init) :
    s.init = [] ∨ s.init = [.setFunction] := by
  obtain ⟨-, timer, htimer⟩ := h.enabled_of_expire
  exact hs.of_expire htimer

/-- An expiry calls NULL exactly if the init has not installed the callback. -/
theorem Steps.oops_iff (h : Steps d s a t) (hs : Inside d run s s.init) (hoops : s.oops = false) :
    t.oops = true ↔ a = .expire ∧ s.init = [.setFunction] := by
  cases h with
  | tick => simp [hoops]
  | @init c => cases c <;> simp [InitStmt.exec, hoops]
  | expire hle htimer hfunction =>
    have hinit : s.init = [] := hs.init_eq_nil (.inl (by simp [hfunction]))
    simp [hoops, hinit]
  | oops hle htimer hfunction =>
    simp [hs.gap_of_expire htimer hfunction]
  | stmt hcallback hstmt => simp [(execStmt_eq hstmt).2.2, hoops]
  | exit => simp [hoops]

/-- The init comes to its last statement by the start of the timer, and stays there otherwise. -/
theorem Steps.gap_iff (h : Steps d s a t) (hs : Inside d run s s.init) :
    t.init = [.setFunction] ↔ a = .init ∧ s.init.head? = some .hrtimerStart ∨
      a ≠ .init ∧ s.init = [.setFunction] := by
  cases h with
  | tick | expire | oops | exit => simp
  | @init c rest hinit =>
    rw [hinit] at hs
    cases hs with
    | setKt | hrtimerInit | hrtimerStart | setFunction => simp [hinit]
  | stmt hcallback hstmt => simp [(execStmt_eq hstmt).2.1]

/-- **When the callback is installed in time.** In every run of either program: the timer has its
callback for its function whenever it is armed, and no expiry calls NULL, if and only if the init
does not start the timer in the run; and no expiry calls NULL, if and only if the timer expires only
when the init has run all of its statements. -/
theorem installed_iff (d : Program) (run : List Act) (s : State)
    (h : exec (step d) .start run = some s) :
    (Throughout (step d) .start (Installed d) run ∧ Throughout (step d) .start NoOops run ↔
        Meets (step d) .start NotStarting run) ∧
      (Throughout (step d) .start NoOops run ↔ Meets (step d) .start ExpiresAfterInit run) := by
  constructor
  · rw [← throughout_and]
    refine throughout_iff_meets ?_ ?_ ?_ h
    · exact ⟨fun harmed => absurd harmed (by decide), rfl⟩
    · rintro run s a t hrun ⟨hinstalled, -⟩ hnot hstep
      obtain ⟨hoops, hsteps⟩ := steps_of_step hstep
      have hs := reachable_inside hrun
      have hgap : s.init ≠ [.setFunction] := by
        intro hinit
        simp [hs.armed_gap_iff.1 hinstalled hinit] at hoops
      refine ⟨(hs.step hoops hsteps).armed_gap_iff.2 fun hinit => ?_, ?_⟩
      · rcases (hsteps.gap_iff hs).1 hinit with ⟨rfl, hhead⟩ | ⟨-, hinit⟩
        · exact absurd hhead (hnot rfl)
        · exact absurd hinit hgap
      · rw [NoOops, ← Bool.not_eq_true, hsteps.oops_iff hs hoops]
        exact fun h => hgap h.2
    · rintro run s a t hrun hstep ⟨hinstalled, hno⟩ rfl hhead
      obtain ⟨hoops, hsteps⟩ := steps_of_step hstep
      have hs := reachable_inside hrun
      have hinit := (hsteps.gap_iff hs).2 (.inl ⟨rfl, hhead⟩)
      have hcalled := (hs.step hoops hsteps).armed_gap_iff.1 hinstalled hinit
      simp [hcalled, NoOops] at hno
  · refine throughout_iff_meets (rfl : NoOops [] State.start) ?_ ?_ h
    · intro run s a t hrun _ hafter hstep
      obtain ⟨hoops, hsteps⟩ := steps_of_step hstep
      rw [NoOops, ← Bool.not_eq_true, hsteps.oops_iff (reachable_inside hrun) hoops]
      rintro ⟨rfl, hinit⟩
      simp [hafter rfl] at hinit
    · rintro run s a t hrun hstep hno rfl
      obtain ⟨hoops, hsteps⟩ := steps_of_step hstep
      have hs := reachable_inside hrun
      refine (hsteps.init_of_expire hs).resolve_right fun hinit => ?_
      simp [(hsteps.oops_iff hs hoops).2 ⟨rfl, hinit⟩, NoOops] at hno

/-- **The gap is as long as the interval.** The timer calls NULL only if the init has been preempted
between its last two statements for the first interval, a second and ten nanoseconds. -/
theorem interval_le_elapsed (h : exec (step d) .start (run ++ [.expire]) = some t)
    (hoops : t.oops = true) : 1000000010 ≤ elapsed (since .init run) := by
  obtain ⟨s, hrun, hstep⟩ := exec_concat.1 h
  obtain ⟨hno, hsteps⟩ := steps_of_step hstep
  have hs := reachable_inside hrun
  have hinit := ((hsteps.oops_iff hs hno).1 hoops).2
  have hle : s.expires ≤ s.now := hsteps.enabled_of_expire.1
  rw [hinit] at hs
  cases hs with
  | setFunction hbetween =>
    have hexpires := hbetween.expires
    simp only [ktimeSet] at hexpires
    omega

instance : Decidable (Installed d run s) := inferInstanceAs (Decidable (_ → _))

instance : Decidable (NoOops run s) := inferInstanceAs (Decidable (_ = _))

instance : Decidable (NotStarting run s a) := inferInstanceAs (Decidable (_ → _))

instance : Decidable (ExpiresAfterInit run s a) := inferInstanceAs (Decidable (_ → _))

/-- Of a whole run no expiry calls NULL when none falls into the init. -/
theorem installed_then_expires :
    Throughout (step .hrtimer1Demo) .start NoOops
        [.init, .init, .init, .tick 999, .init, .tick 1000000010, .expire, .tick 1000000000, .stmt,
          .stmt, .stmt, .stmt, .exit] ∧
      Throughout (step .hrtimer2Moduleparam) .start (Installed .hrtimer2Moduleparam)
        [.init, .tick 5, .init] := by
  obtain ⟨s, hs⟩ : ∃ s, exec (step .hrtimer1Demo) .start
      [.init, .init, .init, .tick 999, .init, .tick 1000000010, .expire, .tick 1000000000, .stmt,
        .stmt, .stmt, .stmt, .exit] = some s := ⟨_, rfl⟩
  obtain ⟨t, ht⟩ : ∃ t, exec (step .hrtimer2Moduleparam) .start [.init, .tick 5, .init] = some t :=
    ⟨_, rfl⟩
  exact ⟨(installed_iff .hrtimer1Demo _ s hs).2.2 (by decide +kernel),
    ((installed_iff .hrtimer2Moduleparam _ t ht).1.2 (by decide +kernel)).1⟩

/-- In both programs the timer that has been started has no function, and an expiry calls it. -/
theorem not_installed_preempted :
    ¬ ∃ d, Throughout (step d) .start (Installed d) [.init, .init, .init] ∨
      Throughout (step d) .start NoOops [.init, .init, .init, .tick 1000000010, .expire] := by
  rintro ⟨d, h | h⟩
  · cases d with
    | hrtimer1Demo | hrtimer2Moduleparam => exact absurd h (by decide +kernel)
  · cases d with
    | hrtimer1Demo | hrtimer2Moduleparam => exact absurd h (by decide +kernel)

end Starrysky.Demo
