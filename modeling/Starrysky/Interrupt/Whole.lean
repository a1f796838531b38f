import Starrysky.Interrupt.Punctual
import Starrysky.Press.Calls
import Mathlib.Data.Fintype.Basic

/-!
# The whole driver

The timer of `Deadline` and the wait queue of `Press.WaitQueue` are one driver: the callback that
the timer expires into is the one that sets the flag and wakes the processes. The machine runs both
together, with any number of files and of processes, each of which makes its calls on one file. A
process calls only on an open file, and no file is released under a call. The poll clients pass
`timeout_ms`, and a `poll` that has run out of time looks at the device once more before it returns
0.
-/

namespace Starrysky.Interrupt

open Transition

/-! ## The open files -/

section Files

variable {F : Type} [DecidableEq F] {d : Driver} {run : List (Act F)} {s t : State F} {a : Act F}

/-- Only an open opens a file, and `hello_exit` finds none open. -/
structure FilesOk (run : List (Act F)) (s : State F) : Prop where
  opens : ∀ f ∈ s.opened, .opens f ∈ run
  exit : s.opened ≠ ∅ → s.exit = none

/-- A step leaves no file open that was not opened, and none behind `hello_exit`. -/
theorem FilesOk.step (ok : FilesOk run s) (h : Steps d s a t) : FilesOk (run ++ [a]) t := by
  cases h with
  | @opens f hexit =>
    refine ⟨fun g hg => ?_, fun _ => hexit⟩
    rcases Finset.mem_insert.1 hg with rfl | hg
    · simp
    · exact List.mem_append_left _ (ok.opens g hg)
  | release hf =>
    refine ⟨fun g hg => ?_, fun _ => ok.exit (Finset.ne_empty_of_mem hf)⟩
    exact List.mem_append_left _ (ok.opens g (Finset.mem_of_mem_erase hg))
  | expire | stmt => exact ⟨fun g hg => List.mem_append_left _ (ok.opens g hg), ok.exit⟩
  | exit _ hopened =>
    exact ⟨fun g hg => List.mem_append_left _ (ok.opens g hg), fun hne => absurd hopened hne⟩
  | exitStmt hexit =>
    refine ⟨fun g hg => List.mem_append_left _ (ok.opens g hg), fun hne => ?_⟩
    simp [ok.exit hne] at hexit

/-- In every run the open files are among those that were opened, and `hello_exit` finds none open.
-/
theorem reachable_filesOk (h : exec (step d) State.init run = some s) : FilesOk run s := by
  refine exec_induction ?_ (fun _ ok hstep => ok.step (steps_of_step hstep)) h
  exact ⟨by simp [State.init], fun _ => rfl⟩

end Files

/-! ## The machine -/

/-- The driver with its timer, and the processes. `calledAt` is when a process has made its latest
call. -/
structure Whole (F P : Type) where
  timed : Timed F
  wait : Press.WaitState P
  calledAt : P → ℤ

inductive WholeAct (F P : Type) where
  /-- time passes -/
  | tick (nsecs : ℕ)
  /-- an open, a release, or a step of the timer, of the callback or of `hello_exit` -/
  | act (a : Act F)
  /-- a step of a process -/
  | proc (p : P) (r : Press.ProcStep)
  deriving DecidableEq

/-- `timeout_ms` in the test programs. -/
def timeoutMs : ℤ := 5000

variable {F P : Type}

def Whole.init (d : Press.Driver) : Whole F P :=
  { timed := .init, wait := .init d, calledAt := fun _ => 0 }

variable [DecidableEq F] [DecidableEq P]

/-- What a process needs for its step besides the wait queue. -/
def Whole.Allows (file : P → F) (s : Whole F P) (p : P) : Press.ProcStep → Prop
  | .call _ => file p ∈ s.timed.state.opened
  | .timeout => s.calledAt p + timeoutMs * 1000000 ≤ s.timed.now ∧ Press.keyPoll s.wait.dev = 0
  | .passAtOnce | .queue | .test | .sleep | .resume | .signal | .copy | .clear => True

instance (file : P → F) (s : Whole F P) (p : P) : (r : Press.ProcStep) →
    Decidable (s.Allows file p r)
  | .call _ => inferInstanceAs (Decidable (_ ∈ _))
  | .timeout => inferInstanceAs (Decidable (_ ∧ _))
  | .passAtOnce | .queue | .test | .sleep | .resume | .signal | .copy | .clear =>
    inferInstanceAs (Decidable True)

/-- When a process has made its latest call, after its step `r`. -/
def Whole.called (s : Whole F P) (p : P) : Press.ProcStep → P → ℤ
  | .call _ => Function.update s.calledAt p s.timed.now
  | .passAtOnce | .queue | .test | .sleep | .resume | .timeout | .signal | .copy | .clear =>
    s.calledAt

/-- What a step of the driver does to the device and the processes. -/
def Whole.waits [Fintype P] (d : Press.Driver) (file : P → F) (s : Whole F P) :
    Act F → Option (Press.WaitState P)
  | .expire => Press.waitStep d s.wait .expire
  | .stmt =>
    match s.wait.cb with
    | [] => none
    | c :: _ => Press.waitStep d s.wait (.stmt c)
  | .release f => if ∀ p, file p = f → (s.wait.procs p).pc = .idle then some s.wait else none
  | .opens _ | .exit | .exitStmt => some s.wait

/-- A step of the driver `d` with its processes, where the process `p` calls on the file `file p`.
-/
def wholeStep [Fintype P] (d : Press.Driver) (file : P → F) (s : Whole F P) :
    WholeAct F P → Option (Whole F P)
  | .tick nsecs => (timedStep d s.timed (.tick nsecs)).map fun timed => { s with timed }
  | .act a =>
    (timedStep d s.timed (.act a)).bind fun timed =>
      (s.waits d file a).map fun wait => { s with timed, wait }
  | .proc p r =>
    if s.Allows file p r then
      (Press.procStep s.wait p r).map fun wait => { s with wait, calledAt := s.called p r }
    else none

/-! ## What a step can do -/

variable [Fintype P] {d : Press.Driver} {file : P → F} {s t : Whole F P} {a : WholeAct F P}
  {run : List (WholeAct F P)} {p : P}

/-- The steps of the whole driver, with what enables them. -/
inductive WholeSteps (d : Press.Driver) (file : P → F) (s : Whole F P) :
    WholeAct F P → Whole F P → Prop
  | tick {nsecs : ℕ} {timed : Timed F} : timedStep d s.timed (.tick nsecs) = some timed →
    WholeSteps d file s (.tick nsecs) { s with timed }
  | expire {timed : Timed F} {wait : Press.WaitState P} :
    timedStep d s.timed (.act .expire) = some timed →
    Press.waitStep d s.wait .expire = some wait →
    WholeSteps d file s (.act .expire) { s with timed, wait }
  | stmt {timed : Timed F} {wait : Press.WaitState P} {c : Press.Stmt} {rest : List Press.Stmt} :
    timedStep d s.timed (.act .stmt) = some timed → s.wait.cb = c :: rest →
    Press.waitStep d s.wait (.stmt c) = some wait →
    WholeSteps d file s (.act .stmt) { s with timed, wait }
  | other {b : Act F} {timed : Timed F} : timedStep d s.timed (.act b) = some timed →
    b ≠ .expire → b ≠ .stmt →
    (∀ f, b = .release f → ∀ p, file p = f → (s.wait.procs p).pc = .idle) →
    WholeSteps d file s (.act b) { s with timed }
  | proc {p : P} {r : Press.ProcStep} {wait : Press.WaitState P} : s.Allows file p r →
    Press.procStep s.wait p r = some wait →
    WholeSteps d file s (.proc p r) { s with wait, calledAt := s.called p r }

theorem wholeSteps_of_wholeStep (h : wholeStep d file s a = some t) : WholeSteps d file s a t := by
  cases a with
  | tick nsecs =>
    cases h
    exact .tick rfl
  | proc p r =>
    obtain ⟨hallows, h⟩ := Option.ite_none_right_eq_some.1 h
    obtain ⟨wait, hwait, ⟨⟩⟩ := Option.map_eq_some_iff.1 h
    exact .proc hallows hwait
  | act b =>
    obtain ⟨timed, htimed, h⟩ := Option.bind_eq_some_iff.1 h
    obtain ⟨wait, hwait, ⟨⟩⟩ := Option.map_eq_some_iff.1 h
    cases b with
    | expire => exact .expire htimed hwait
    | stmt =>
      cases hcb : s.wait.cb with
      | nil => simp [Whole.waits, hcb] at hwait
      | cons c rest => exact .stmt htimed hcb (by simpa [Whole.waits, hcb] using hwait)
    | release f =>
      obtain ⟨hidle, ⟨⟩⟩ := Option.ite_none_right_eq_some.1 hwait
      exact .other htimed (by simp) (by simp) (by rintro _ ⟨⟩; exact hidle)
    | opens | exit | exitStmt =>
      cases hwait
      exact .other htimed (by simp) (by simp) (by simp)

/-- The steps of the timed driver that a step of the whole one is. -/
def WholeAct.timed : WholeAct F P → List (TimedAct F)
  | .tick nsecs => [.tick nsecs]
  | .act a => [.act a]
  | .proc _ _ => []

/-- **The processes forgotten, a run is one of the timed driver.** -/
theorem whole_refines (h : exec (wholeStep d file) (.init d) run = some s) :
    exec (timedStep d) .init (run.flatMap WholeAct.timed) = some s.timed := by
  have hsim : ∃ x, exec (timedStep d) .init (run.flatMap WholeAct.timed) = some x ∧
      x = s.timed := by
    refine exec_simulation (R := fun (s : Whole F P) x => x = s.timed) ?_ rfl h
    rintro s a t x rfl hstep
    cases wholeSteps_of_wholeStep hstep with
    | tick htimed | expire htimed | stmt htimed | other htimed =>
      exact ⟨_, by rw [WholeAct.timed, exec_cons, htimed]; rfl, rfl⟩
    | proc => exact ⟨_, rfl, rfl⟩
  obtain ⟨x, hx, rfl⟩ := hsim
  exact hx

/-! ## The driver and its processes together -/

section Procs

variable {P : Type} [DecidableEq P] {s t : Press.WaitState P} {p q : P} {r : Press.ProcStep}

theorem procs_of_ne (h : Press.ProcSteps s p r t) (hq : q ≠ p) : t.procs q = s.procs q := by
  cases h <;> exact Press.setProc_procs_of_ne hq

theorem cb_of_proc (h : Press.ProcSteps s p r t) : t.cb = s.cb := by
  cases h <;> rfl

end Procs

/-- What holds in every reachable state of the whole driver: the callback is the same for the timer
and for the processes, and a process in a call has its file open. -/
structure WholeOk (d : Press.Driver) (file : P → F) (s : Whole F P) : Prop where
  wait : Press.WaitOk d s.wait
  callback : s.timed.state.callback = s.wait.cb.map .press
  opened : ∀ p, (s.wait.procs p).pc ≠ .idle → file p ∈ s.timed.state.opened

/-- An open, a release and a step of `hello_exit` leave the callback alone. -/
theorem callback_eq_of_other {d : Driver} {s t : State F} {a : Act F} (h : Steps d s a t)
    (hexpire : a ≠ .expire) (hstmt : a ≠ .stmt) : t.callback = s.callback := by
  cases h with
  | opens | release | exit | exitStmt => rfl
  | expire => exact absurd rfl hexpire
  | stmt => exact absurd rfl hstmt

/-- A step keeps the callback that the timer runs and the one that wakes the processes the same, and
the file of a process in a call open. -/
theorem WholeOk.step (ok : WholeOk d file s) (h : wholeStep d file s a = some t) :
    WholeOk d file t := by
  cases wholeSteps_of_wholeStep h with
  | tick htimed =>
    cases htimed
    exact ⟨ok.wait, ok.callback, ok.opened⟩
  | expire htimed hwait =>
    obtain ⟨state, hstep, rfl⟩ := act_of_timedStep htimed
    cases steps_of_step hstep with
    | expire => cases Press.waitSteps_of_waitStep hwait with
      | expire => exact ⟨ok.wait.step hwait, rfl, ok.opened⟩
  | stmt htimed hcb hwait =>
    obtain ⟨state, hstep, rfl⟩ := act_of_timedStep htimed
    have hcallback := ok.callback
    cases steps_of_step hstep with
    | stmt hcons =>
      rw [hcb, hcons] at hcallback
      obtain ⟨-, hrest⟩ := List.cons.inj hcallback
      cases Press.waitSteps_of_waitStep hwait with
      | wakeUp hcb' | stmt hcb' =>
        cases hcb.symm.trans hcb'
        exact ⟨ok.wait.step hwait, hrest, ok.opened⟩
  | @other b timed htimed hexpire hstmt hidle =>
    obtain ⟨state, hstep, rfl⟩ := act_of_timedStep htimed
    have hsteps := steps_of_step hstep
    refine ⟨ok.wait, (callback_eq_of_other hsteps hexpire hstmt).trans ok.callback, fun p hp => ?_⟩
    have hopened := ok.opened p hp
    cases hsteps with
    | opens => exact Finset.mem_insert_of_mem hopened
    | release =>
      refine Finset.mem_erase.2 ⟨?_, hopened⟩
      rintro hfile
      exact hp (hidle _ rfl p hfile)
    | expire => exact absurd rfl hexpire
    | stmt => exact absurd rfl hstmt
    | exit | exitStmt => exact hopened
  | @proc p r wait hallows hproc =>
    have hsteps := Press.procSteps_of_procStep hproc
    refine ⟨ok.wait.proc hsteps, by rw [cb_of_proc hsteps]; exact ok.callback, fun q hq => ?_⟩
    by_cases hqp : q = p
    · subst hqp
      by_cases hidle : (s.wait.procs q).pc = .idle
      · obtain ⟨c, rfl, -⟩ := hsteps.of_idle hidle
        exact hallows
      · exact ok.opened q hidle
    · rw [procs_of_ne hsteps hqp] at hq
      exact ok.opened q hq

/-- In every run the timer and the processes see one callback, and a process in a call has its file
open. -/
theorem reachable_wholeOk (h : exec (wholeStep d file) (.init d) run = some s) :
    WholeOk d file s := by
  refine exec_induction (P := fun _ s => WholeOk d file s) ?_ (fun _ ok hstep => ok.step hstep) h
  exact ⟨.init, rfl, fun p hp => absurd rfl hp⟩

/-- While a process is in a call, its file is open, and the timer runs. -/
theorem punctualOk_of_call (hd : d ≠ .miniatureDriver)
    (h : exec (wholeStep d file) (.init d) run = some s) (hp : (s.wait.procs p).pc ≠ .idle) :
    PunctualOk d s.timed := by
  have htimed := whole_refines h
  have hopened := (reachable_wholeOk h).opened p hp
  have ok := reachable_filesOk (timed_refines htimed)
  have hexit := ok.exit (Finset.ne_empty_of_mem hopened)
  exact reachable_punctualOk hd htimed (ok.opens _ hopened) hexit

/-! ## Every sleeper is woken in time -/

/-- The part of the time that a step lets pass in which the timer or the callback is due. -/
def Whole.late (s : Whole F P) : WholeAct F P → ℤ
  | .tick nsecs => s.timed.late (.tick nsecs)
  | .act _ | .proc _ _ => 0

/-- The time of a run that the kernel is late. -/
def wholeLateness (d : Press.Driver) (file : P → F) : Whole F P → List (WholeAct F P) → ℤ :=
  cost (wholeStep d file) Whole.late

/-- No file is opened, and the process `p` takes no step. -/
def Still (p : P) (_ : List (WholeAct F P)) (_ : Whole F P) : WholeAct F P → Prop
  | .act (.opens _) => False
  | .proc q _ => q ≠ p
  | .tick _ | .act (.release _) | .act .expire | .act .stmt | .act .exit | .act .exitStmt => True

instance (p : P) (run : List (WholeAct F P)) (s : Whole F P) : (a : WholeAct F P) →
    Decidable (Still p run s a)
  | .act (.opens _) => inferInstanceAs (Decidable False)
  | .proc _ _ => inferInstanceAs (Decidable (_ ≠ _))
  | .tick _ | .act (.release _) | .act .expire | .act .stmt | .act .exit | .act .exitStmt =>
    inferInstanceAs (Decidable True)

/-- A process that takes no step stays as it is, but for the wake-up. -/
theorem procs_of_still (hstill : Still p run s a) (h : wholeStep d file s a = some t) :
    t.wait.procs p = s.wait.procs p ∧ (a = .act .stmt → s.wait.cb.head? ≠ some .wakeUp) ∨
      t.wait.procs p = (s.wait.procs p).wakeUp := by
  cases wholeSteps_of_wholeStep h with
  | tick => exact .inl ⟨rfl, by simp⟩
  | expire _ hwait => cases Press.waitSteps_of_waitStep hwait with
    | expire => exact .inl ⟨rfl, by simp⟩
  | stmt _ hcb hwait => cases Press.waitSteps_of_waitStep hwait with
    | wakeUp => exact .inr rfl
    | stmt _ hc => exact .inl ⟨rfl, by simpa [hcb] using hc⟩
  | other _ _ hstmt => exact .inl ⟨rfl, fun h => absurd (by simpa using h) hstmt⟩
  | @proc q r wait _ hproc =>
    have hqp : q ≠ p := hstill
    exact .inl ⟨procs_of_ne (Press.procSteps_of_procStep hproc) hqp.symm, by simp⟩

/-- While a process is in a call, `hello_exit` does not begin. -/
theorem WholeOk.ne_exit (ok : WholeOk d file s) (hp : (s.wait.procs p).pc ≠ .idle)
    (h : wholeStep d file s a = some t) : a ≠ .act .exit := by
  rintro rfl
  cases wholeSteps_of_wholeStep h with
  | other htimed =>
    obtain ⟨state, hstep, -⟩ := act_of_timedStep htimed
    cases steps_of_step hstep with
    | exit _ hopened => exact Finset.ne_empty_of_mem (ok.opened p hp) hopened

/-- **The time to the event pays for a step** of the whole driver. -/
theorem WholeOk.le_add_late {e : Press.Stmt} (hd : d ≠ .miniatureDriver) (he : IsEvent e)
    (ok : WholeOk d file s) (hok : PunctualOk d s.timed) (hopens : ∀ f, a ≠ .act (.opens f))
    (hexit : a ≠ .act .exit) (hevent : a = .act .stmt → s.wait.cb.head? ≠ some e)
    (h : wholeStep d file s a = some t) :
    t.timed.now + t.timed.untilEvent d e ≤ s.timed.now + s.timed.untilEvent d e + s.late a := by
  have hact : ∀ {b timed}, a = .act b → timedStep d s.timed (.act b) = some timed →
      timed.now + timed.untilEvent d e ≤ s.timed.now + s.timed.untilEvent d e + 0 := by
    rintro b timed rfl htimed
    rw [← late_act (s := s.timed) b]
    have heventless : Eventless e [] s.timed (.act b) := by
      refine ⟨by simpa using hopens, by simpa using hexit, ?_⟩
      rintro ⟨⟩
      rw [ok.callback, List.head?_map]
      simpa using hevent rfl
    exact hok.le_add_late hd he heventless htimed
  cases wholeSteps_of_wholeStep h with
  | @tick nsecs _ htimed =>
    have heventless : Eventless e [] s.timed (.tick nsecs) := ⟨by simp, by simp, by simp⟩
    exact hok.le_add_late hd he heventless htimed
  | expire htimed | stmt htimed | other htimed => exact hact rfl htimed
  | proc => exact (Int.add_zero _).ge

/-- **Every sleeper is woken in time.** In every run of the two drivers with any number of files and
processes: a process that sleeps in a call, and takes no step since, has been woken once more time
has passed than the first interval and the `mdelay` of the callback, but for what the kernel is
late and unless a file is opened in between. -/
theorem woken_in_time {F P : Type} [DecidableEq F] [DecidableEq P] [Fintype P] (d : Press.Driver)
    (hd : d ≠ .miniatureDriver) (file : P → F) (run seg : List (WholeAct F P)) (s t : Whole F P)
    (p : P) (c : Press.Call) (h : exec (wholeStep d file) (.init d) run = some s)
    (hpc : (s.wait.procs p).pc = .asleep c) (hseg : exec (wholeStep d file) s seg = some t)
    (hstill : Meets (wholeStep d file) s (Still p) seg)
    (hlate : firstKt + delay d + wholeLateness d file s seg < t.timed.now - s.timed.now) :
    (t.wait.procs p).woken = true := by
  have hrun : ∀ {as u}, exec (wholeStep d file) s as = some u →
      exec (wholeStep d file) (.init d) (run ++ as) = some u :=
    exec_join h
  have hend : (t.wait.procs p).pc = .asleep c ∧ ((t.wait.procs p).woken = true ∨
      t.timed.now + t.timed.untilEvent d .wakeUp ≤
        s.timed.now + s.timed.untilEvent d .wakeUp + wholeLateness d file s seg) := by
    refine hstill.induction (P := fun as u => (u.wait.procs p).pc = .asleep c ∧
      ((u.wait.procs p).woken = true ∨ u.timed.now + u.timed.untilEvent d .wakeUp ≤
        s.timed.now + s.timed.untilEvent d .wakeUp + wholeLateness d file s as)) ?_ ?_ hseg
    · exact ⟨hpc, .inr (Int.add_zero _).ge⟩
    · rintro as u a v hu ⟨hasleep, hle⟩ hC hstep
      have hne : (u.wait.procs p).pc ≠ .idle := by simp [hasleep]
      have ok := reachable_wholeOk (hrun hu)
      have hcost : wholeLateness d file s (as ++ [a]) = wholeLateness d file s as + u.late a := by
        rw [wholeLateness, cost_append hu, cost_cons hstep, cost_nil, Int.add_zero]
      rcases procs_of_still hC hstep with ⟨hprocs, hevent⟩ | hprocs
      · rw [hprocs]
        refine ⟨hasleep, hle.imp_right fun hle => ?_⟩
        have hopens : ∀ f, a ≠ .act (.opens f) := by
          rintro f rfl
          exact hC
        have hstep := ok.le_add_late (e := .wakeUp) hd (.inr rfl)
          (punctualOk_of_call hd (hrun hu) hne) hopens (ok.ne_exit hne hstep) hevent hstep
        omega
      · rw [hprocs]
        have hqueued := ok.wait.queued p (by simp [hasleep, Press.WaitPc.Waits])
        exact ⟨hasleep, .inl (by simp [Press.Proc.wakeUp, hqueued])⟩
  refine hend.2.resolve_right fun hle => ?_
  have hok := punctualOk_of_call hd h (p := p) (by simp [hpc])
  have huntil : s.timed.untilEvent d .wakeUp ≤ firstKt + delay d := hok.untilEvent_le
  have hnonneg : 0 ≤ t.timed.untilEvent d .wakeUp := untilEvent_nonneg
  omega

theorem woken_in_time_first : ∃ s t : Whole (Fin 1) (Fin 1),
    exec (wholeStep .interrupt2Poll id) (.init .interrupt2Poll) [.act (.opens 0),
      .proc 0 (.call .read), .proc 0 .queue, .proc 0 .test, .proc 0 .sleep] = some s ∧
    exec (wholeStep .interrupt2Poll id) s [.tick 1000000010, .act .expire, .tick 1000000000,
      .act .stmt, .act .stmt, .act .stmt, .act .stmt, .act .stmt, .act .stmt, .act .stmt,
      .tick 1] = some t ∧ (t.wait.procs 0).woken = true := by
  refine ⟨_, _, rfl, rfl, ?_⟩
  exact woken_in_time .interrupt2Poll (by decide) id [.act (.opens 0),
      .proc 0 (.call .read), .proc 0 .queue, .proc 0 .test, .proc 0 .sleep]
    [.tick 1000000010, .act .expire, .tick 1000000000,
      .act .stmt, .act .stmt, .act .stmt, .act .stmt, .act .stmt, .act .stmt, .act .stmt,
      .tick 1] _ _ 0 .read rfl rfl rfl (by decide +kernel) (by decide +kernel)

end Starrysky.Interrupt
