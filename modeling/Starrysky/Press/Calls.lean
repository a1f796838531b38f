import Starrysky.Press.WakeUp

/-!
# The calls of a client

What the statements of `poll` and of `dmisc_read` come to for the process that makes the call,
without signals: a `poll` ends when `key_poll` reports an event, or by its timeout (`Polling.proc`);
a read that finds the flag up, and beside which nobody clears it, passes the wait without sleeping
(`Reading.proc`).
-/

namespace Starrysky.Press

/-- Where a process stands in `poll`. -/
inductive Polling : WaitPc → Prop
  | queueing : Polling (.queueing .poll)
  | testing : Polling (.testing .poll)
  | unset : Polling (.unset .poll)
  | asleep : Polling (.asleep .poll)

/-- Where a process stands in a read that does not block: the flag is up until the value is copied.
-/
inductive Reading (pressed : Prop) : WaitPc → Prop
  | queueing : pressed → Reading pressed (.queueing .read)
  | testing : pressed → Reading pressed (.testing .read)
  | copying : pressed → Reading pressed .copying
  | clearing : Reading pressed .clearing

variable {pressed pressed' : Prop} {w : WaitPc}

theorem Polling.not_blocked (h : Polling w) : w ≠ .unset .read ∧ w ≠ .asleep .read := by
  cases h <;> simp

theorem Reading.not_blocked (h : Reading pressed w) : w ≠ .unset .read ∧ w ≠ .asleep .read := by
  cases h <;> simp

theorem Polling.ne_idle (h : Polling w) : w ≠ .idle := by
  cases h <;> simp

theorem Reading.ne_idle (h : Reading pressed w) : w ≠ .idle := by
  cases h <;> simp

theorem Reading.imp (h : Reading pressed w) (hp : pressed → pressed') : Reading pressed' w := by
  cases h with
  | queueing h => exact .queueing (hp h)
  | testing h => exact .testing (hp h)
  | copying h => exact .copying (hp h)
  | clearing => exact .clearing

variable {P : Type} [DecidableEq P] {s t : WaitState P} {p : P} {r : ProcStep}

/-- **Step lemma** for `poll`. -/
theorem Polling.proc (h : Polling (s.procs p).pc) (hproc : ProcSteps s p r t) :
    Polling (t.procs p).pc ∨
      (t.procs p).pc = .idle ∧ t.dev = s.dev ∧ (r = .timeout ∨ keyPoll s.dev ≠ 0) := by
  cases hproc with
  | call hpc | passAtOnce hpc | signal hpc | copy hpc | clear hpc =>
    rw [hpc] at h
    cases h
  | queue hpc =>
    rw [hpc] at h
    cases h with
    | queueing => exact .inl (by simpa using .testing)
  | ready hpc hready =>
    rw [hpc] at h
    cases h with
    | testing => exact .inr ⟨by simp [Call.after], rfl, .inr hready⟩
  | unready hpc =>
    rw [hpc] at h
    cases h with
    | testing => exact .inl (by simpa using .unset)
  | again hpc =>
    rw [hpc] at h
    cases h with
    | unset => exact .inl (by simpa using .testing)
  | sleep hpc =>
    rw [hpc] at h
    cases h with
    | unset => exact .inl (by simpa using .asleep)
  | resume hpc =>
    rw [hpc] at h
    cases h with
    | asleep => exact .inl (by simpa using .testing)
  | timeout hpc => exact .inr ⟨by simp, rfl, .inl rfl⟩

/-- **Step lemma** for `dmisc_read`. -/
theorem Reading.proc (h : Reading s.dev.Pressed (s.procs p).pc) (hsignal : r ≠ .signal)
    (hproc : ProcSteps s p r t) :
    Reading t.dev.Pressed (t.procs p).pc ∨ (t.procs p).pc = .idle := by
  cases hproc with
  | call hpc | again hpc | sleep hpc | resume hpc | timeout hpc =>
    rw [hpc] at h
    cases h
  | passAtOnce hpc hev => exact .inl (by simpa using .copying hev)
  | queue hpc =>
    rw [hpc] at h
    cases h with
    | queueing hp => exact .inl (by simpa using .testing hp)
  | ready hpc =>
    rw [hpc] at h
    cases h with
    | testing hp => exact .inl (by simpa [Call.after] using .copying hp)
  | unready hpc hnot =>
    rw [hpc] at h
    cases h with
    | testing hp => exact absurd hp hnot
  | signal => exact absurd rfl hsignal
  | copy hpc => exact .inl (by simpa using .clearing)
  | clear hpc => exact .inr (by simp)

/-- From outside its calls a process begins one. -/
theorem ProcSteps.of_idle (h : (s.procs p).pc = .idle) (hproc : ProcSteps s p r t) :
    ∃ c, r = .call c ∧ t.dev = s.dev ∧ (t.procs p).pc = .queueing c := by
  cases hproc with
  | @call c => exact ⟨c, rfl, rfl, by simp⟩
  | passAtOnce hpc | queue hpc | ready hpc | unready hpc | again hpc | sleep hpc | resume hpc
  | timeout hpc | signal hpc | copy hpc | clear hpc => simp [h] at hpc

end Starrysky.Press
