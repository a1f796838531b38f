import Starrysky.Interrupt.Whole

/-!
# The timeout of the poll clients

A `poll` of a test program runs out of time after `timeout_ms`, five seconds, and the callback tells
of a new value every second or two. So a `poll` that returns 0 has been kept waiting by the kernel,
unless another file is opened, which restarts the timer, or another process has read the value away
(`timeout_late`).
-/

namespace Starrysky.Interrupt

open Transition

section Procs

variable {P : Type} [DecidableEq P] {s t : Press.WaitState P} {p : P} {r : Press.ProcStep}

theorem dev_of_proc (h : Press.ProcSteps s p r t) (hr : r ≠ .clear) : t.dev = s.dev := by
  cases h with
  | clear => exact absurd rfl hr
  | call | passAtOnce | queue | ready | unready | again | sleep | resume | timeout | signal
  | copy => rfl

end Procs

variable {F P : Type}

/-- No file is opened, no process clears the flag, and `p` begins no call. -/
def Undisturbed (p : P) (_ : List (WholeAct F P)) (_ : Whole F P) : WholeAct F P → Prop
  | .act (.opens _) | .proc _ .clear => False
  | .proc q (.call _) => q ≠ p
  | .proc _ .passAtOnce | .proc _ .queue | .proc _ .test | .proc _ .sleep | .proc _ .resume
  | .proc _ .timeout | .proc _ .signal | .proc _ .copy => True
  | .tick _ | .act (.release _) | .act .expire | .act .stmt | .act .exit | .act .exitStmt => True

variable {d : Press.Driver} {file : P → F} {s t : Whole F P} {a : WholeAct F P}
  {run : List (WholeAct F P)} {p q : P} {r : Press.ProcStep}

theorem Undisturbed.ne_clear (h : Undisturbed p run s (.proc q r)) : r ≠ .clear := by
  rintro rfl
  exact h

theorem Undisturbed.ne_call (h : Undisturbed p run s (.proc p r)) (c : Press.Call) :
    r ≠ .call c := by
  rintro rfl
  exact h rfl

variable [DecidableEq P]

instance (p : P) (run : List (WholeAct F P)) (s : Whole F P) : (a : WholeAct F P) →
    Decidable (Undisturbed p run s a)
  | .act (.opens _) | .proc _ .clear => inferInstanceAs (Decidable False)
  | .proc _ (.call _) => inferInstanceAs (Decidable (_ ≠ _))
  | .proc _ .passAtOnce | .proc _ .queue | .proc _ .test | .proc _ .sleep | .proc _ .resume
  | .proc _ .timeout | .proc _ .signal | .proc _ .copy => inferInstanceAs (Decidable True)
  | .tick _ | .act (.release _) | .act .expire | .act .stmt | .act .exit | .act .exitStmt =>
    inferInstanceAs (Decidable True)

theorem called_of_ne_call (h : ∀ c, r ≠ .call c) : s.called p r = s.calledAt := by
  cases r with
  | call c => exact absurd rfl (h c)
  | passAtOnce | queue | test | sleep | resume | timeout | signal | copy | clear => rfl

theorem called_of_ne (h : q ≠ p) : s.called p r q = s.calledAt q := by
  cases r with
  | call c => exact Function.update_of_ne h ..
  | passAtOnce | queue | test | sleep | resume | timeout | signal | copy | clear => rfl

variable [DecidableEq F] [Fintype P]

/-- The process `p` is in the `poll` that it called at the time `called`, and the flag is up, or the
next event comes by the time `bound` if the kernel is not late. -/
structure PollOk (d : Press.Driver) (p : P) (called bound : ℤ) (s : Whole F P) : Prop where
  polling : Press.Polling (s.wait.procs p).pc
  calledAt : s.calledAt p = called
  pressed : s.wait.dev.Pressed ∨ s.timed.now + s.timed.untilEvent d .setPress ≤ bound

/-- Undisturbed, the flag stays up once it is. -/
theorem pressed_step (hC : Undisturbed p run s a) (hstep : wholeStep d file s a = some t)
    (hp : s.wait.dev.Pressed ∨ a = .act .stmt ∧ s.wait.cb.head? = some .setPress) :
    t.wait.dev.Pressed := by
  cases wholeSteps_of_wholeStep hstep with
  | tick => simpa using hp
  | expire _ hwait => cases Press.waitSteps_of_waitStep hwait with
    | expire => simpa using hp
  | other _ _ hstmt => simpa [hstmt] using hp
  | proc _ hproc =>
    have hdev := dev_of_proc (Press.procSteps_of_procStep hproc) hC.ne_clear
    simpa [hdev] using hp
  | @stmt timed wait c rest _ hcb hwait =>
    cases Press.waitSteps_of_waitStep hwait with
    | wakeUp => simpa [hcb] using hp
    | stmt =>
      rcases hp with hp | ⟨-, hhead⟩
      · exact Press.exec_pressed hp
      · obtain rfl : c = .setPress := by simpa [hcb] using hhead
        simp [Press.Stmt.exec, Press.Device.Pressed]

/-- A step that does not disturb the process leaves it in its `poll` with the flag up or the next
event in time, but for the time that the kernel is late, unless it returns from the `poll`. -/
theorem PollOk.step {called bound : ℤ} (hd : d ≠ .miniatureDriver) (ok : WholeOk d file s)
    (hok : PunctualOk d s.timed) (h : PollOk d p called bound s) (hC : Undisturbed p run s a)
    (hstep : wholeStep d file s a = some t) :
    (t.wait.procs p).pc = .idle ∨ PollOk d p called (bound + s.late a) t := by
  have hpressed : t.wait.dev.Pressed ∨
      t.timed.now + t.timed.untilEvent d .setPress ≤ bound + s.late a := by
    by_cases hp : s.wait.dev.Pressed ∨ a = .act .stmt ∧ s.wait.cb.head? = some .setPress
    · exact .inl (pressed_step hC hstep hp)
    · obtain ⟨hnot, hevent⟩ := not_or.1 hp
      have hle := h.pressed.resolve_left hnot
      have hopens : ∀ f, a ≠ .act (.opens f) := by
        rintro f rfl
        exact hC
      have hlate := ok.le_add_late hd (.inl rfl) hok hopens
        (ok.ne_exit h.polling.ne_idle hstep) (fun ha hhead => hevent ⟨ha, hhead⟩) hstep
      exact .inr (by omega)
  have hpolling := h.polling
  cases wholeSteps_of_wholeStep hstep with
  | tick | other => exact .inr ⟨hpolling, h.calledAt, hpressed⟩
  | expire _ hwait => cases Press.waitSteps_of_waitStep hwait with
    | expire => exact .inr ⟨hpolling, h.calledAt, hpressed⟩
  | stmt _ _ hwait => cases Press.waitSteps_of_waitStep hwait with
    | wakeUp | stmt => exact .inr ⟨hpolling, h.calledAt, hpressed⟩
  | @proc q r wait _ hproc =>
    have hsteps := Press.procSteps_of_procStep hproc
    by_cases hqp : p = q
    · subst hqp
      have hcalled : s.called p r = s.calledAt := called_of_ne_call fun c => hC.ne_call c
      rcases hpolling.proc hsteps with hpolling | ⟨hidle, -⟩
      · exact .inr ⟨hpolling, (congrFun hcalled p).trans h.calledAt, hpressed⟩
      · exact .inl hidle
    · refine .inr ⟨?_, (called_of_ne hqp).trans h.calledAt, hpressed⟩
      rw [procs_of_ne hsteps hqp]
      exact hpolling

/-- A `poll` that has returned is not called again. -/
theorem idle_step (hidle : (s.wait.procs p).pc = .idle) (hC : Undisturbed p run s a)
    (hstep : wholeStep d file s a = some t) : (t.wait.procs p).pc = .idle := by
  cases wholeSteps_of_wholeStep hstep with
  | tick | other => exact hidle
  | expire _ hwait => cases Press.waitSteps_of_waitStep hwait with
    | expire => exact hidle
  | stmt _ _ hwait => cases Press.waitSteps_of_waitStep hwait with
    | wakeUp | stmt => exact hidle
  | @proc q r wait _ hproc =>
    have hsteps := Press.procSteps_of_procStep hproc
    by_cases hqp : p = q
    · subst hqp
      obtain ⟨c, rfl, -⟩ := hsteps.of_idle hidle
      exact absurd rfl (hC.ne_call c)
    · rw [procs_of_ne hsteps hqp]
      exact hidle

theorem pollOk_call (h : wholeStep d file s (.proc p (.call .poll)) = some t) :
    PollOk d p t.timed.now (t.timed.now + t.timed.untilEvent d .setPress) t := by
  cases wholeSteps_of_wholeStep h with
  | proc _ hproc => cases Press.procSteps_of_procStep hproc with
    | call =>
      refine ⟨?_, Function.update_self .., .inr le_rfl⟩
      rw [Press.setProc_procs_self]
      exact .queueing

/-- **A timeout is the kernel's delay.** In every run of the two drivers with any number of files
and processes: when a `poll` returns by its timeout, and since it was called no file has been opened
and no process has cleared the flag, the kernel has been late for the time by which the timeout
exceeds the first interval and the `mdelay` of the callback: 2.99999999 seconds at least for
`interrupt-2-poll`, and 3.99999999 for `interrupt-3-epoll`. -/
theorem timeout_late {F P : Type} [DecidableEq F] [DecidableEq P] [Fintype P] (d : Press.Driver)
    (hd : d ≠ .miniatureDriver) (file : P → F) (run seg : List (WholeAct F P))
    (s t u : Whole F P) (p : P)
    (h : exec (wholeStep d file) (.init d) (run ++ [.proc p (.call .poll)]) = some s)
    (hseg : exec (wholeStep d file) s seg = some t)
    (hC : Meets (wholeStep d file) s (Undisturbed p) seg)
    (htimeout : wholeStep d file t (.proc p .timeout) = some u) :
    timeoutMs * 1000000 - (firstKt + delay d) ≤ wholeLateness d file s seg := by
  have hrun : ∀ {as u}, exec (wholeStep d file) s as = some u →
      exec (wholeStep d file) (.init d) (run ++ [.proc p (.call .poll)] ++ as) = some u :=
    exec_join h
  obtain ⟨s₀, -, hcall⟩ := exec_concat.1 h
  have hpoll := pollOk_call hcall
  have hend : (t.wait.procs p).pc = .idle ∨ PollOk d p s.timed.now
      (s.timed.now + s.timed.untilEvent d .setPress + wholeLateness d file s seg) t := by
    refine hC.induction (P := fun as u => (u.wait.procs p).pc = .idle ∨ PollOk d p s.timed.now
      (s.timed.now + s.timed.untilEvent d .setPress + wholeLateness d file s as) u) ?_ ?_ hseg
    · rw [wholeLateness, cost_nil, Int.add_zero]
      exact .inr hpoll
    · rintro as u a v hu (hidle | ok) hC hstep
      · exact .inl (idle_step hidle hC hstep)
      · rw [wholeLateness, cost_append hu, cost_cons hstep, cost_nil, Int.add_zero, ← Int.add_assoc]
        exact ok.step hd (reachable_wholeOk (hrun hu))
          (punctualOk_of_call hd (hrun hu) ok.polling.ne_idle) hC hstep
  cases wholeSteps_of_wholeStep htimeout with
  | proc hallows hproc => cases Press.procSteps_of_procStep hproc with
    | timeout hasleep =>
      have ok := hend.resolve_left (by simp [hasleep])
      obtain ⟨hcalled, hdown⟩ := hallows
      have hflag := (reachable_wholeOk (hrun hseg)).wait.flag
      have hnot : ¬ t.wait.dev.Pressed := fun hp => (Press.keyPoll_ne_zero_iff hflag).2 hp hdown
      have hle := ok.pressed.resolve_left hnot
      have huntil : s.timed.untilEvent d .setPress ≤ firstKt + delay d :=
        (punctualOk_of_call hd h hpoll.polling.ne_idle).untilEvent_le
      have hnonneg : 0 ≤ t.timed.untilEvent d .setPress := untilEvent_nonneg
      rw [ok.calledAt] at hcalled
      omega

/-- A callback that the kernel leaves in its `mdelay` three seconds too long. -/
theorem timeout_late_in_mdelay : ∃ s t : Whole (Fin 1) (Fin 1),
    exec (wholeStep .interrupt2Poll id) (.init .interrupt2Poll)
      [.act (.opens 0), .proc 0 (.call .poll)] = some s ∧
    exec (wholeStep .interrupt2Poll id) s [.proc 0 .queue, .proc 0 .test, .proc 0 .sleep,
      .tick 1000000010, .act .expire, .tick 3999999990] = some t ∧
    (wholeStep .interrupt2Poll id t (.proc 0 .timeout)).isSome ∧
    wholeLateness .interrupt2Poll id s [.proc 0 .queue, .proc 0 .test, .proc 0 .sleep,
      .tick 1000000010, .act .expire, .tick 3999999990] = 2999999990 ∧
    timeoutMs * 1000000 - (firstKt + delay .interrupt2Poll) ≤
      wholeLateness .interrupt2Poll id s [.proc 0 .queue, .proc 0 .test, .proc 0 .sleep,
        .tick 1000000010, .act .expire, .tick 3999999990] := by
  refine ⟨_, _, rfl, rfl, by decide +kernel, by decide +kernel, ?_⟩
  exact timeout_late .interrupt2Poll (by decide) id [.act (.opens 0)]
    [.proc 0 .queue, .proc 0 .test, .proc 0 .sleep, .tick 1000000010, .act .expire,
      .tick 3999999990] _ _ _ 0 rfl rfl (by decide +kernel) rfl

end Starrysky.Interrupt
