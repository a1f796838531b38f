import Starrysky.Press.Flag

/-!
# The wait queue

Processes that wait for the flag sleep on `key_waitq`: in `dmisc_read` by
`wait_event_interruptible`, in `poll` by the kernel's loop around `key_poll`, whose `poll_wait`
queues the process. Both queue first and test the flag afterwards, and the callback sets the flag
first and wakes afterwards. This is the order that `no_missed_wakeup` rests on: a process found
asleep, unwoken, with the flag up waits at most for the callback that is about to wake it. Any
number of processes take part, and readers clear the flag under the others.
-/

namespace Starrysky.Press

open Transition

/-- The two ways to wait for the flag. -/
inductive Call where
  | poll
  | read
  deriving DecidableEq

/-- Where a process stands in a call. -/
inductive WaitPc where
  | idle
  | queueing (c : Call)
  | testing (c : Call)
  /-- it has found the flag down, and is about to sleep -/
  | unset (c : Call)
  | asleep (c : Call)
  | copying
  | clearing
  deriving DecidableEq

/-- A process: whether it is on `key_waitq`, and whether a wake-up has reached it since its last
test. -/
structure Proc where
  pc : WaitPc
  queued : Bool
  woken : Bool
  deriving DecidableEq

/-- The device, what is left of a running callback, the processes, and the byte the latest copy of
each has put in its buffer. -/
structure WaitState (P : Type) where
  dev : Device
  cb : List Stmt
  procs : P → Proc
  buf : P → Option Int8

def WaitState.init {P : Type} (d : Driver) : WaitState P :=
  { dev := Device.init d, cb := [], procs := fun _ => ⟨.idle, false, false⟩, buf := fun _ => none }

/-- The steps of a process. -/
inductive ProcStep where
  | call (c : Call)
  /-- `wait_event_interruptible` finds the flag up before it queues -/
  | passAtOnce
  /-- `poll_wait`, or `prepare_to_wait_event` in `wait_event_interruptible` -/
  | queue
  | test
  | sleep
  | resume
  /-- the timeout of `poll` -/
  | timeout
  /-- a signal ends `wait_event_interruptible`, whose result `dmisc_read` does not look at -/
  | signal
  | copy
  | clear
  deriving DecidableEq

/-- A statement of the callback or of a process. -/
inductive WaitAct (P : Type) where
  | expire
  | stmt (c : Stmt)
  | proc (p : P) (r : ProcStep)
  deriving DecidableEq

/-- What a waiting call tests: `key_poll` reports an event, or the wait's condition. -/
def Call.Ready : Call → Device → Prop
  | .poll, dev => keyPoll dev ≠ 0
  | .read, dev => dev.Pressed

instance : (c : Call) → (dev : Device) → Decidable (c.Ready dev)
  | .poll, dev => inferInstanceAs (Decidable (keyPoll dev ≠ 0))
  | .read, dev => inferInstanceAs (Decidable dev.Pressed)

/-- What follows a wait that has ended: `poll` returns, `dmisc_read` copies. -/
def Call.after : Call → WaitPc
  | .poll => .idle
  | .read => .copying

/-- `wake_up_interruptible` reaches every process on the queue. -/
def Proc.wakeUp (pr : Proc) : Proc := { pr with woken := pr.woken || pr.queued }

variable {P : Type} [DecidableEq P] {d : Driver} {s t : WaitState P} {p q : P} {pr : Proc}
  {r : ProcStep}

def WaitState.setProc (s : WaitState P) (p : P) (pr : Proc) : WaitState P :=
  { s with procs := Function.update s.procs p pr }

@[simp] theorem setProc_dev : (s.setProc p pr).dev = s.dev := rfl

@[simp] theorem setProc_cb : (s.setProc p pr).cb = s.cb := rfl

@[simp] theorem setProc_buf : (s.setProc p pr).buf = s.buf := rfl

@[simp] theorem setProc_procs_self : (s.setProc p pr).procs p = pr := by
  simp [WaitState.setProc]

theorem setProc_procs_of_ne (h : q ≠ p) : (s.setProc p pr).procs q = s.procs q := by
  simp [WaitState.setProc, h]

/-- A step of the process `p`. -/
def procStep (s : WaitState P) (p : P) : ProcStep → Option (WaitState P)
  | .call c =>
    if (s.procs p).pc = .idle then some (s.setProc p ⟨.queueing c, false, false⟩) else none
  | .passAtOnce =>
    if (s.procs p).pc = .queueing .read ∧ s.dev.Pressed then
      some (s.setProc p ⟨.copying, false, false⟩)
    else none
  | .queue =>
    match (s.procs p).pc with
    | .queueing c => some (s.setProc p ⟨.testing c, true, false⟩)
    | _ => none
  | .test =>
    match (s.procs p).pc with
    | .testing c =>
      if c.Ready s.dev then some (s.setProc p ⟨c.after, false, false⟩)
      else some (s.setProc p ⟨.unset c, (s.procs p).queued, false⟩)
    | _ => none
  | .sleep =>
    match (s.procs p).pc with
    | .unset c =>
      -- a process that was woken since its test does not sleep
      if (s.procs p).woken then some (s.setProc p { s.procs p with pc := .testing c })
      else some (s.setProc p { s.procs p with pc := .asleep c })
    | _ => none
  | .resume =>
    match (s.procs p).pc with
    | .asleep c =>
      if (s.procs p).woken then some (s.setProc p { s.procs p with pc := .testing c }) else none
    | _ => none
  | .timeout =>
    if (s.procs p).pc = .asleep .poll then some (s.setProc p ⟨.idle, false, false⟩) else none
  | .signal =>
    if (s.procs p).pc = .asleep .read then some (s.setProc p ⟨.copying, false, false⟩) else none
  | .copy =>
    if (s.procs p).pc = .copying then
      some { s.setProc p ⟨.clearing, false, false⟩ with
        buf := Function.update s.buf p (some s.dev.value) }
    else none
  | .clear =>
    if (s.procs p).pc = .clearing then
      some { s.setProc p ⟨.idle, false, false⟩ with dev := s.dev.clearPress }
    else none

/-- A step of the system. -/
def waitStep (d : Driver) (s : WaitState P) : WaitAct P → Option (WaitState P)
  | .expire => if s.cb = [] then some { s with cb := hrtimerHanderInterrupt d } else none
  | .stmt c =>
    match s.cb with
    | [] => none
    | c' :: rest =>
      if c = c' then
        some { s with
          dev := c.exec s.dev
          cb := rest
          procs := fun p => if c = .wakeUp then (s.procs p).wakeUp else s.procs p }
      else none
  | .proc p r => procStep s p r

/-! ## What a step can do -/

/-- The steps of a process, with what enables them. -/
inductive ProcSteps (s : WaitState P) (p : P) : ProcStep → WaitState P → Prop
  | call {c : Call} : (s.procs p).pc = .idle →
    ProcSteps s p (.call c) (s.setProc p ⟨.queueing c, false, false⟩)
  | passAtOnce : (s.procs p).pc = .queueing .read → s.dev.Pressed →
    ProcSteps s p .passAtOnce (s.setProc p ⟨.copying, false, false⟩)
  | queue {c : Call} : (s.procs p).pc = .queueing c →
    ProcSteps s p .queue (s.setProc p ⟨.testing c, true, false⟩)
  | ready {c : Call} : (s.procs p).pc = .testing c → c.Ready s.dev →
    ProcSteps s p .test (s.setProc p ⟨c.after, false, false⟩)
  | unready {c : Call} : (s.procs p).pc = .testing c → ¬ c.Ready s.dev →
    ProcSteps s p .test (s.setProc p ⟨.unset c, (s.procs p).queued, false⟩)
  | again {c : Call} : (s.procs p).pc = .unset c → (s.procs p).woken = true →
    ProcSteps s p .sleep (s.setProc p { s.procs p with pc := .testing c })
  | sleep {c : Call} : (s.procs p).pc = .unset c → (s.procs p).woken = false →
    ProcSteps s p .sleep (s.setProc p { s.procs p with pc := .asleep c })
  | resume {c : Call} : (s.procs p).pc = .asleep c → (s.procs p).woken = true →
    ProcSteps s p .resume (s.setProc p { s.procs p with pc := .testing c })
  | timeout : (s.procs p).pc = .asleep .poll →
    ProcSteps s p .timeout (s.setProc p ⟨.idle, false, false⟩)
  | signal : (s.procs p).pc = .asleep .read →
    ProcSteps s p .signal (s.setProc p ⟨.copying, false, false⟩)
  | copy : (s.procs p).pc = .copying →
    ProcSteps s p .copy { s.setProc p ⟨.clearing, false, false⟩ with
      buf := Function.update s.buf p (some s.dev.value) }
  | clear : (s.procs p).pc = .clearing →
    ProcSteps s p .clear { s.setProc p ⟨.idle, false, false⟩ with dev := s.dev.clearPress }

theorem procSteps_of_procStep (h : procStep s p r = some t) : ProcSteps s p r t := by
  cases r with
  | call c =>
    obtain ⟨hpc, ⟨⟩⟩ := Option.ite_none_right_eq_some.1 h
    exact .call hpc
  | passAtOnce =>
    obtain ⟨⟨hpc, hev⟩, ⟨⟩⟩ := Option.ite_none_right_eq_some.1 h
    exact .passAtOnce hpc hev
  | queue =>
    rw [procStep] at h
    split at h
    · next c hpc => cases h; exact .queue hpc
    · cases h
  | test =>
    rw [procStep] at h
    split at h
    · next c hpc =>
      split at h
      · next hr => cases h; exact .ready hpc hr
      · next hr => cases h; exact .unready hpc hr
    · cases h
  | sleep =>
    rw [procStep] at h
    split at h
    · next c hpc =>
      split at h
      · next hw => cases h; exact .again hpc hw
      · next hw => cases h; exact .sleep hpc (Bool.eq_false_iff.2 hw)
    · cases h
  | resume =>
    rw [procStep] at h
    split at h
    · next c hpc =>
      obtain ⟨hw, ⟨⟩⟩ := Option.ite_none_right_eq_some.1 h
      exact .resume hpc hw
    · cases h
  | timeout =>
    obtain ⟨hpc, ⟨⟩⟩ := Option.ite_none_right_eq_some.1 h
    exact .timeout hpc
  | signal =>
    obtain ⟨hpc, ⟨⟩⟩ := Option.ite_none_right_eq_some.1 h
    exact .signal hpc
  | copy =>
    obtain ⟨hpc, ⟨⟩⟩ := Option.ite_none_right_eq_some.1 h
    exact .copy hpc
  | clear =>
    obtain ⟨hpc, ⟨⟩⟩ := Option.ite_none_right_eq_some.1 h
    exact .clear hpc

/-- The steps of the system. -/
inductive WaitSteps (d : Driver) (s : WaitState P) : WaitAct P → WaitState P → Prop
  | expire : s.cb = [] → WaitSteps d s .expire { s with cb := hrtimerHanderInterrupt d }
  | wakeUp {rest : List Stmt} : s.cb = .wakeUp :: rest →
    WaitSteps d s (.stmt .wakeUp) { s with cb := rest, procs := fun p => (s.procs p).wakeUp }
  | stmt {c : Stmt} {rest : List Stmt} : s.cb = c :: rest → c ≠ .wakeUp →
    WaitSteps d s (.stmt c) { s with dev := c.exec s.dev, cb := rest }
  | proc {p : P} {r : ProcStep} {t : WaitState P} :
    ProcSteps s p r t → WaitSteps d s (.proc p r) t

theorem waitSteps_of_waitStep {a : WaitAct P} (h : waitStep d s a = some t) :
    WaitSteps d s a t := by
  cases a with
  | expire =>
    obtain ⟨hcb, ⟨⟩⟩ := Option.ite_none_right_eq_some.1 h
    exact .expire hcb
  | stmt c =>
    rw [waitStep] at h
    split at h
    · cases h
    · next c' rest hcb =>
      obtain ⟨rfl, ⟨⟩⟩ := Option.ite_none_right_eq_some.1 h
      by_cases hc : c = .wakeUp
      · subst hc
        exact .wakeUp hcb
      · simpa [hc] using WaitSteps.stmt (d := d) hcb hc
  | proc p r => exact .proc (procSteps_of_procStep h)

end Starrysky.Press
