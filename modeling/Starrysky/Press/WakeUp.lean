import Starrysky.Press.WaitQueue

/-!
# No wake-up is missed

The invariant of the wait queue. A process that has found the flag down and has not been woken since
is on the queue. Should the flag be up all the same, then the callback has set it after the test,
and its wake-up, which will reach the process, is still to come (`WaitOk.unwoken`).
-/

namespace Starrysky.Press

open Transition

/-- A callback stands between setting `ev_press` and its `wake_up_interruptible`. -/
def BetweenSetAndWake (d : Driver) (cb : List Stmt) : Prop :=
  ∃ done, hrtimerHanderInterrupt d = done ++ cb ∧ .setPress ∈ done ∧ .wakeUp ∈ cb

/-- The process is between queueing and the end of its wait. -/
def WaitPc.Waits : WaitPc → Prop
  | .testing _ | .unset _ | .asleep _ => True
  | .idle | .queueing _ | .copying | .clearing => False

/-- The process has found the flag down and has not been woken since: it sleeps or will. -/
def Proc.Unwoken (pr : Proc) : Prop :=
  ((∃ c, pr.pc = .unset c) ∨ ∃ c, pr.pc = .asleep c) ∧ pr.woken = false

variable {P : Type} {d : Driver} {s t : WaitState P} {p q : P} {r : ProcStep} {pr : Proc}
  {run : List (WaitAct P)} {c : Stmt} {rest : List Stmt}

/-- What holds in every reachable state. -/
structure WaitOk (d : Driver) (s : WaitState P) : Prop where
  cb : s.cb <:+ hrtimerHanderInterrupt d
  flag : s.dev.evPress = 0 ∨ s.dev.evPress = 1
  queued : ∀ p, (s.procs p).pc.Waits → (s.procs p).queued = true
  unwoken : s.dev.Pressed → ∀ p, (s.procs p).Unwoken → BetweenSetAndWake d s.cb

theorem Proc.Unwoken.waits (h : pr.Unwoken) : pr.pc.Waits := by
  rcases h with ⟨⟨c, h⟩ | ⟨c, h⟩, -⟩
  · rw [h]; trivial
  · rw [h]; trivial

/-- A call whose test fails has found the flag down. -/
theorem not_pressed_of_not_ready {call : Call} (hflag : s.dev.evPress = 0 ∨ s.dev.evPress = 1)
    (h : ¬ call.Ready s.dev) : ¬ s.dev.Pressed := by
  cases call with
  | poll => rwa [Call.Ready, keyPoll_ne_zero_iff hflag] at h
  | read => exact h

theorem WaitOk.init : WaitOk d (WaitState.init d : WaitState P) where
  cb := List.nil_suffix
  flag := by cases d <;> exact .inl rfl
  queued := fun _ h => h.elim
  unwoken := fun h => absurd h init_not_pressed

/-- A statement of the callback other than the wake-up keeps the invariant: when it sets the flag,
its wake-up is still to come. -/
theorem WaitOk.stmt (ok : WaitOk d s) (hcb : s.cb = c :: rest) (hc : c ≠ .wakeUp) :
    WaitOk d { s with dev := c.exec s.dev, cb := rest } where
  cb := (List.suffix_cons c rest).trans (hcb ▸ ok.cb)
  flag := exec_evPress_le ok.flag
  queued := ok.queued
  unwoken := by
    intro hev q hq
    by_cases hset : c = .setPress
    · subst hset
      obtain ⟨done, hdone⟩ := hcb ▸ ok.cb
      obtain ⟨hwake, -⟩ := after_setPress (hcb ▸ ok.cb)
      exact ⟨done ++ [.setPress], by simp [← hdone], by simp, hwake⟩
    · have hev : s.dev.Pressed := by simpa [Device.Pressed, exec_evPress hset] using hev
      obtain ⟨done, hdone, hpress, hwake⟩ := ok.unwoken hev q hq
      rw [hcb] at hdone hwake
      exact ⟨done ++ [c], by simp [hdone], by simp [hpress], by simpa [Ne.symm hc] using hwake⟩

/-- The wake-up reaches every process that waits. -/
theorem WaitOk.wakeUp (ok : WaitOk d s) (hcb : s.cb = .wakeUp :: rest) :
    WaitOk d { s with cb := rest, procs := fun p => (s.procs p).wakeUp } where
  cb := (List.suffix_cons .wakeUp rest).trans (hcb ▸ ok.cb)
  flag := ok.flag
  queued := ok.queued
  unwoken := by
    intro _ q hq
    have hqueued := ok.queued q hq.waits
    have hwoken : ((s.procs q).woken || (s.procs q).queued) = false := hq.2
    simp [hqueued] at hwoken

variable [DecidableEq P]

/-- A process goes on: it keeps the invariant when it is on the queue wherever it waits, and has
found the flag down, or was waiting unwoken already, wherever it sleeps or will. -/
theorem WaitOk.setProc (ok : WaitOk d s) (hq : pr.pc.Waits → pr.queued = true)
    (hu : pr.Unwoken → ¬ s.dev.Pressed ∨ (s.procs p).Unwoken) : WaitOk d (s.setProc p pr) where
  cb := ok.cb
  flag := ok.flag
  queued := by
    intro q
    by_cases hqp : q = p
    · subst hqp
      rwa [setProc_procs_self]
    · rw [setProc_procs_of_ne hqp]
      exact ok.queued q
  unwoken := by
    intro hev q
    by_cases hqp : q = p
    · subst hqp
      rw [setProc_procs_self]
      exact fun h => (hu h).elim (absurd hev) (ok.unwoken hev q)
    · rw [setProc_procs_of_ne hqp]
      exact ok.unwoken hev q

/-- A step of a process keeps the invariant. -/
theorem WaitOk.proc (ok : WaitOk d s) (h : ProcSteps s p r t) : WaitOk d t := by
  have hqueued := ok.queued p
  cases h with
  | call | passAtOnce | timeout | signal =>
    exact ok.setProc (fun h => h.elim) fun h => h.waits.elim
  | queue =>
    refine ok.setProc (fun _ => rfl) ?_
    rintro ⟨⟨c, h⟩ | ⟨c, h⟩, -⟩ <;> cases h
  | @ready call =>
    cases call with
    | poll | read => exact ok.setProc (fun h => h.elim) fun h => h.waits.elim
  | unready hpc hr =>
    rw [hpc] at hqueued
    exact ok.setProc (fun _ => hqueued trivial)
      fun _ => .inl (not_pressed_of_not_ready ok.flag hr)
  | again hpc | resume hpc =>
    rw [hpc] at hqueued
    refine ok.setProc (fun _ => hqueued trivial) ?_
    rintro ⟨⟨c, h⟩ | ⟨c, h⟩, -⟩ <;> cases h
  | sleep hpc hw =>
    rw [hpc] at hqueued
    exact ok.setProc (fun _ => hqueued trivial) fun _ => .inr ⟨.inl ⟨_, hpc⟩, hw⟩
  | copy =>
    have ok' : WaitOk d (s.setProc p ⟨.clearing, false, false⟩) :=
      ok.setProc (fun h => h.elim) fun h => h.waits.elim
    exact ⟨ok'.cb, ok'.flag, ok'.queued, ok'.unwoken⟩
  | clear =>
    have ok' : WaitOk d (s.setProc p ⟨.idle, false, false⟩) :=
      ok.setProc (fun h => h.elim) fun h => h.waits.elim
    exact ⟨ok'.cb, .inl rfl, ok'.queued, fun hev => absurd hev clearPress_not_pressed⟩

/-- A step of a process or the callback leaves nobody asleep and unwoken beside the flag, unless the
callback is about to wake the queue. -/
theorem WaitOk.step {a : WaitAct P} (ok : WaitOk d s) (h : waitStep d s a = some t) :
    WaitOk d t := by
  cases waitSteps_of_waitStep h with
  | expire hcb =>
    refine ⟨List.suffix_rfl, ok.flag, ok.queued, fun hev q hq => ?_⟩
    -- no callback was running, so nobody slept unwoken while the flag was up
    obtain ⟨-, -, -, hwake⟩ := ok.unwoken hev q hq
    simp [hcb] at hwake
  | wakeUp hcb => exact ok.wakeUp hcb
  | stmt hcb hc => exact ok.stmt hcb hc
  | proc hp => exact ok.proc hp

/-- In every run nobody is asleep and unwoken beside the flag, unless the callback is about to wake
the queue. -/
theorem reachable_waitOk (h : exec (waitStep d) (WaitState.init d) run = some s) : WaitOk d s :=
  exec_induction (P := fun _ s => WaitOk d s) .init (fun _ ok hstep => ok.step hstep) h

/-- **No wake-up is missed.** In every reachable state, a process that sleeps and has not been woken
since its last test coexists with the flag only while a callback stands between setting the flag and
its wake-up. -/
theorem no_missed_wakeup {P : Type} [DecidableEq P] (d : Driver) (run : List (WaitAct P))
    (s : WaitState P) (h : exec (waitStep d) (WaitState.init d) run = some s) (p : P) (c : Call)
    (hpc : (s.procs p).pc = .asleep c) (hwoken : (s.procs p).woken = false)
    (hev : s.dev.evPress = 1) : BetweenSetAndWake d s.cb := by
  have ok := reachable_waitOk h
  exact ok.unwoken (by simp [Device.Pressed, hev]) p ⟨.inr ⟨c, hpc⟩, hwoken⟩

/-- A poller and a reader are asleep when the callback sets the flag. -/
theorem no_missed_wakeup_two_sleepers :
    ∃ s : WaitState (Fin 2), exec (waitStep .interrupt2Poll) (WaitState.init .interrupt2Poll)
        [.proc 0 (.call .poll), .proc 0 .queue, .proc 0 .test, .proc 0 .sleep,
          .proc 1 (.call .read), .proc 1 .queue, .proc 1 .test, .proc 1 .sleep,
          .expire, .stmt (.mdelay 1000), .stmt (.setKt 0 1000000), .stmt .forwardNow,
          .stmt .toggleValue, .stmt .setPress] = some s ∧
      BetweenSetAndWake .interrupt2Poll s.cb := by
  obtain ⟨s, hs, hproc, hev⟩ : ∃ s : WaitState (Fin 2),
      exec (waitStep .interrupt2Poll) (WaitState.init .interrupt2Poll)
        [.proc 0 (.call .poll), .proc 0 .queue, .proc 0 .test, .proc 0 .sleep,
          .proc 1 (.call .read), .proc 1 .queue, .proc 1 .test, .proc 1 .sleep,
          .expire, .stmt (.mdelay 1000), .stmt (.setKt 0 1000000), .stmt .forwardNow,
          .stmt .toggleValue, .stmt .setPress] = some s ∧
      s.procs 1 = ⟨.asleep .read, true, false⟩ ∧ s.dev.evPress = 1 := ⟨_, rfl, rfl, rfl⟩
  exact ⟨s, hs, no_missed_wakeup _ _ s hs 1 .read (by rw [hproc]) (by rw [hproc]) hev⟩

end Starrysky.Press
