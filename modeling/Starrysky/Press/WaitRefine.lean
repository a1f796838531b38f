import Starrysky.Press.WaitQueue

/-!
# The wait as one step

The machine of `Flag` has one step for the wait of `dmisc_read`. As long as no signal ends a wait,
the wait queue refines it: what a process does on the queue is invisible to the readers, and the
test that finds the flag up is the step `pass` (`waitStep_refines`). So every run with the queue has
a run of the readers with the same statements of the callback, the same copies and the same clears,
in the same order (`refines_readers`).
-/

namespace Starrysky.Press

open Transition

/-- The wait is one step for the readers. -/
def WaitPc.readPc : WaitPc → ReadPc
  | .idle | .queueing _ | .testing _ | .unset _ | .asleep _ => .idle
  | .copying => .passed
  | .clearing => .copied

variable {P : Type} {s t : WaitState P} {p : P} {pr : Proc}

/-- What the machine of the readers sees of a state. -/
def WaitState.readers (s : WaitState P) : State P :=
  { dev := s.dev, cb := s.cb, pc := fun p => (s.procs p).pc.readPc, buf := s.buf }

/-- What the two machines have in common: the statements of the callback, the copies and the clears.
-/
def WaitAct.visible : WaitAct P → Option (Act P)
  | .expire => some .expire
  | .stmt c => some (.stmt c)
  | .proc p .copy => some (.read p .copy)
  | .proc p .clear => some (.read p .clear)
  | .proc _ _ => none

def Act.visible : Act P → Option (Act P)
  | .read _ .pass => none
  | a => some a

@[simp] theorem readers_dev : s.readers.dev = s.dev := rfl

@[simp] theorem readers_buf : s.readers.buf = s.buf := rfl

@[simp] theorem readers_pc : s.readers.pc p = (s.procs p).pc.readPc := rfl

variable [DecidableEq P] {d : Driver} {a : WaitAct P} {run : List (WaitAct P)}

theorem readers_setProc : (s.setProc p pr).readers =
    { s.readers with pc := Function.update s.readers.pc p pr.pc.readPc } := by
  have hpc : ∀ q, ((s.setProc p pr).procs q).pc.readPc =
      Function.update s.readers.pc p pr.pc.readPc q := by
    intro q
    by_cases hqp : q = p
    · simp [hqp]
    · simp [setProc_procs_of_ne hqp, hqp]
  simp [WaitState.readers, hpc]

/-- A step inside the wait is none for the readers. -/
theorem readers_setProc_of_eq (h : pr.pc.readPc = (s.procs p).pc.readPc) :
    (s.setProc p pr).readers = s.readers := by
  rw [readers_setProc, h, ← readers_pc, Function.update_eq_self]

/-- **Step refinement.** -/
theorem waitStep_refines (h : waitStep d s a = some t) (hsignal : ∀ p, a ≠ .proc p .signal) :
    ∃ as, exec (step d) s.readers as = some t.readers ∧
      as.filterMap Act.visible = [a].filterMap WaitAct.visible := by
  cases waitSteps_of_waitStep h with
  | expire hcb => exact ⟨[.expire], by simp [step, WaitState.readers, hcb], rfl⟩
  | wakeUp hcb =>
    exact ⟨[.stmt .wakeUp], by simp [step, WaitState.readers, hcb, Stmt.exec, Proc.wakeUp], rfl⟩
  | @stmt c _ hcb => exact ⟨[.stmt c], by simp [step, WaitState.readers, hcb], rfl⟩
  | @proc p r _ hp => cases hp with
    | call hpc | queue hpc | unready hpc | again hpc | sleep hpc | resume hpc | timeout hpc =>
      exact ⟨[], by rw [readers_setProc_of_eq (by rw [hpc]; rfl)]; rfl, rfl⟩
    | signal => exact absurd rfl (hsignal p)
    | passAtOnce hpc hev =>
      refine ⟨[.read p .pass], ?_, rfl⟩
      simp [step, readStep, readers_setProc, hpc, hev, WaitPc.readPc]
    | @ready call hpc hr => cases call with
      | poll => exact ⟨[], by rw [readers_setProc_of_eq (by rw [hpc]; rfl)]; rfl, rfl⟩
      | read =>
        have hev : s.dev.Pressed := hr
        refine ⟨[.read p .pass], ?_, rfl⟩
        simp [step, readStep, readers_setProc, hpc, hev, WaitPc.readPc, Call.after]
    | copy hpc =>
      have ht : ∀ b, ({ s.setProc p ⟨.clearing, false, false⟩ with buf := b }).readers =
          { (s.setProc p ⟨.clearing, false, false⟩).readers with buf := b } := fun _ => rfl
      refine ⟨[.read p .copy], ?_, rfl⟩
      rw [ht, readers_setProc]
      simp [step, readStep, hpc, WaitPc.readPc]
    | clear hpc =>
      have ht : ∀ dev, ({ s.setProc p ⟨.idle, false, false⟩ with dev := dev }).readers =
          { (s.setProc p ⟨.idle, false, false⟩).readers with dev := dev } := fun _ => rfl
      refine ⟨[.read p .clear], ?_, rfl⟩
      rw [ht, readers_setProc]
      simp [step, readStep, hpc, WaitPc.readPc]

/-- **Refinement.** A run with the queue in which no signal ends a wait is, for the readers, a run
with the same visible statements. -/
theorem refines_readers (h : exec (waitStep d) (WaitState.init d) run = some s)
    (hsignal : ∀ p, .proc p .signal ∉ run) :
    ∃ run', exec (step d) (State.init d) run' = some s.readers ∧
      run'.filterMap Act.visible = run.filterMap WaitAct.visible := by
  refine exec_induction (P := fun run s => (∀ p, .proc p .signal ∉ run) →
    ∃ run', exec (step d) (State.init d) run' = some s.readers ∧
      run'.filterMap Act.visible = run.filterMap WaitAct.visible) ?_ ?_ h hsignal
  · exact fun _ => ⟨[], rfl, rfl⟩
  · intro run s a t _ ih hstep hsignal
    obtain ⟨run', hrun', hvis'⟩ := ih fun p hp => hsignal p (List.mem_append_left _ hp)
    obtain ⟨as, has, hvis⟩ := waitStep_refines hstep fun p hp => hsignal p (by simp [hp])
    refine ⟨run' ++ as, ?_, ?_⟩
    · rw [exec_append, hrun']
      exact has
    · rw [List.filterMap_append, hvis', hvis, ← List.filterMap_append]

end Starrysky.Press
