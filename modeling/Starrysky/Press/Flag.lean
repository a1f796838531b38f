import Starrysky.Press.Device
import Starrysky.Lib.Transition
import Mathlib.Logic.Function.Basic

/-!
# Readers and the timer callback

`dmisc_read` is three steps: pass the wait on `ev_press`, copy `value` to the user, clear
`ev_press`. The timer callback runs in interrupt context, and its statements and the steps of any
number of readers interleave without a lock. `step` is one statement of either side; `wholeStep` is
the coarser system in which a callback is never interrupted, which it is on a single CPU. A run of
the coarser system is a run of the finer one (`exec_wholeStep`). Signals and copy faults are left
out here.
-/

namespace Starrysky.Press

open Transition

/-- The steps of `dmisc_read`. -/
inductive ReadStep where
  /-- `wait_event_interruptible(key_waitq, ev_press)` returns -/
  | pass
  /-- `copy_to_user(buf, &value, 1)` -/
  | copy
  /-- `ev_press = 0` -/
  | clear
  deriving DecidableEq

/-- Where a process stands in `dmisc_read`. -/
inductive ReadPc where
  | idle
  | passed
  | copied
  deriving DecidableEq

/-- The device, what is left of a running callback, and the readers: where each stands, and the byte
its latest copy put in its buffer. -/
structure State (P : Type) where
  dev : Device
  cb : List Stmt
  pc : P → ReadPc
  buf : P → Option Int8

/-- A bound device, before its first timer callback and its first read. -/
def State.init {P : Type} (d : Driver) : State P :=
  { dev := Device.init d, cb := [], pc := fun _ => .idle, buf := fun _ => none }

/-- A statement of the callback or of a reader. -/
inductive Act (P : Type) where
  | expire
  | stmt (c : Stmt)
  | read (p : P) (r : ReadStep)
  deriving DecidableEq

/-- A whole callback, or a statement of a reader. -/
inductive Whole (P : Type) where
  | callback
  | read (p : P) (r : ReadStep)
  deriving DecidableEq

/-- The statements of a whole callback. -/
def Whole.acts {P : Type} (d : Driver) : Whole P → List (Act P)
  | .callback => .expire :: (hrtimerHanderInterrupt d).map .stmt
  | .read p r => [.read p r]

variable {P : Type} [DecidableEq P] {d : Driver} {s t : State P} {p q : P} {r : ReadStep}

/-- A step of `dmisc_read` by the process `p`. -/
def readStep (s : State P) (p : P) : ReadStep → Option (State P)
  | .pass =>
    if s.pc p = .idle ∧ s.dev.Pressed then
      some { s with pc := Function.update s.pc p .passed }
    else none
  | .copy =>
    if s.pc p = .passed then
      some { s with
        pc := Function.update s.pc p .copied
        buf := Function.update s.buf p (some s.dev.value) }
    else none
  | .clear =>
    if s.pc p = .copied then
      some { s with dev := s.dev.clearPress, pc := Function.update s.pc p .idle }
    else none

/-- A statement: the timer expires only when no callback is running, and a running callback executes
its statements in their order. -/
def step (d : Driver) (s : State P) : Act P → Option (State P)
  | .expire => if s.cb = [] then some { s with cb := hrtimerHanderInterrupt d } else none
  | .stmt c =>
    match s.cb with
    | [] => none
    | c' :: rest => if c = c' then some { s with dev := c.exec s.dev, cb := rest } else none
  | .read p r => readStep s p r

/-- The coarser system, in which a callback runs to its end. -/
def wholeStep (d : Driver) (s : State P) (a : Whole P) : Option (State P) :=
  exec (step d) s (a.acts d)

/-- A run in which callbacks are not interrupted is a run. -/
theorem exec_wholeStep (d : Driver) (s : State P) (run : List (Whole P)) :
    exec (wholeStep d) s run = exec (step d) s (run.flatMap (Whole.acts d)) :=
  exec_flatMap (Whole.acts d) s run

/-! ## What a step can do -/

/-- The steps of a reader, with what enables them. -/
inductive Reads (s : State P) (p : P) : ReadStep → State P → Prop
  | pass : s.pc p = .idle → s.dev.Pressed →
    Reads s p .pass { s with pc := Function.update s.pc p .passed }
  | copy : s.pc p = .passed →
    Reads s p .copy { s with
      pc := Function.update s.pc p .copied
      buf := Function.update s.buf p (some s.dev.value) }
  | clear : s.pc p = .copied →
    Reads s p .clear { s with dev := s.dev.clearPress, pc := Function.update s.pc p .idle }

theorem reads_of_readStep (h : readStep s p r = some t) : Reads s p r t := by
  cases r with
  | pass =>
    obtain ⟨⟨hpc, hev⟩, ⟨⟩⟩ := Option.ite_none_right_eq_some.1 h
    exact .pass hpc hev
  | copy =>
    obtain ⟨hpc, ⟨⟩⟩ := Option.ite_none_right_eq_some.1 h
    exact .copy hpc
  | clear =>
    obtain ⟨hpc, ⟨⟩⟩ := Option.ite_none_right_eq_some.1 h
    exact .clear hpc

/-- The steps of the system. -/
inductive Steps (d : Driver) (s : State P) : Act P → State P → Prop
  | expire : s.cb = [] → Steps d s .expire { s with cb := hrtimerHanderInterrupt d }
  | stmt {c : Stmt} {rest : List Stmt} : s.cb = c :: rest →
    Steps d s (.stmt c) { s with dev := c.exec s.dev, cb := rest }
  | read {p : P} {r : ReadStep} {t : State P} : Reads s p r t → Steps d s (.read p r) t

theorem steps_of_step {a : Act P} (h : step d s a = some t) : Steps d s a t := by
  cases a with
  | expire =>
    obtain ⟨hcb, ⟨⟩⟩ := Option.ite_none_right_eq_some.1 h
    exact .expire hcb
  | stmt c =>
    rw [step] at h
    split at h
    · cases h
    · next c' rest hcb =>
      obtain ⟨rfl, ⟨⟩⟩ := Option.ite_none_right_eq_some.1 h
      exact .stmt hcb
  | read p r => exact .read (reads_of_readStep h)

/-- The steps of the coarser system. -/
inductive WholeSteps (d : Driver) (s : State P) : Whole P → State P → Prop
  | callback : s.cb = [] → WholeSteps d s .callback { s with dev := callback d s.dev }
  | read {p : P} {r : ReadStep} {t : State P} : Reads s p r t → WholeSteps d s (.read p r) t

theorem exec_stmts (s : State P) {cs rest : List Stmt} (h : s.cb = cs ++ rest) :
    exec (step d) s (cs.map .stmt) =
      some { s with dev := cs.foldl (fun dev c => c.exec dev) s.dev, cb := rest } := by
  induction cs generalizing s with
  | nil => rw [List.nil_append] at h; simp [← h]
  | cons c cs ih =>
    have hstep : step d s (.stmt c) = some { s with dev := c.exec s.dev, cb := cs ++ rest } := by
      simp [step, h]
    rw [List.map_cons, exec_cons, hstep, Option.bind_some]
    exact ih { s with dev := c.exec s.dev, cb := cs ++ rest } rfl

/-- A whole callback, when none is running, takes the device from before its first statement to
after its last. -/
theorem wholeStep_callback (h : s.cb = []) :
    wholeStep d s .callback = some { s with dev := callback d s.dev } := by
  have hcs := exec_stmts (d := d) { s with cb := hrtimerHanderInterrupt d }
    (List.append_nil _).symm
  rw [wholeStep, Whole.acts, exec_cons, step, if_pos h, Option.bind_some, hcs, ← h]
  rfl

theorem wholeSteps_of_wholeStep {a : Whole P} (h : wholeStep d s a = some t) :
    WholeSteps d s a t := by
  cases a with
  | callback =>
    by_cases hcb : s.cb = []
    · rw [wholeStep_callback hcb] at h
      cases h
      exact .callback hcb
    · simp [wholeStep, Whole.acts, step, hcb] at h
  | read p r =>
    have h : readStep s p r = some t := by simpa [wholeStep, Whole.acts, step] using h
    exact .read (reads_of_readStep h)

/-! ## The running callback -/

/-- What is left of a running callback is an end of the callback. -/
theorem reachable_cb {run : List (Act P)} (h : exec (step d) (State.init d) run = some s) :
    s.cb <:+ hrtimerHanderInterrupt d := by
  refine exec_induction (P := fun _ s => s.cb <:+ hrtimerHanderInterrupt d)
    (List.nil_suffix) ?_ h
  intro _ s a t _ ih hstep
  cases steps_of_step hstep with
  | expire => exact List.suffix_rfl
  | stmt hcb => exact (List.suffix_cons ..).trans (hcb ▸ ih)
  | read hr => cases hr with
    | pass | copy | clear => exact ih

end Starrysky.Press
