import Starrysky.Press.Calls

/-!
# The poll client

The test program of `interrupt-2-poll` polls the device and reads it only if `poll` has reported
`POLLIN`. The machine runs this loop beside the callback, on the wait queue of `WaitQueue`, without
signals. Since nobody else clears the flag, what `key_poll` has reported is still true when the
client reads, however many callbacks fall in between, and each read has a callback of its own
(`poll_client`). The invariant `Inside` says for each place of the client what it relies on.
-/

namespace Starrysky.Press

open Transition

def POLLERR : UInt32 := 0x0008
def POLLHUP : UInt32 := 0x0010

/-- Where `main` stands: at or in a call, or behind `poll` with its result. -/
inductive ClientPc where
  | call (c : Call)
  | returned
  deriving DecidableEq

/-- The driver with one process, which runs `main`, and the variables that `main` looks at. -/
structure PollClient where
  sys : WaitState Unit
  pc : ClientPc
  ret : Int32
  revents : UInt32

inductive ClientAct where
  | expire
  | stmt (c : Stmt)
  | proc (r : ProcStep)
  /-- `if ((ret == 1) && (fds[0].revents & POLLIN))` -/
  | branch
  deriving DecidableEq

/-- The client has opened the device. -/
def PollClient.init : PollClient :=
  { sys := .init .interrupt2Poll, pc := .call .poll, ret := 0, revents := 0 }

/-- What `poll(fds, 1, timeout_ms)` returns when it ends by the step `r`, and the `revents` of its
one file. -/
def pollResult (r : ProcStep) (dev : Device) : Int32 × UInt32 :=
  if r = .timeout then (0, 0) else (1, keyPoll dev &&& (POLLIN ||| POLLERR ||| POLLHUP))

/-- `poll` has reported `POLLIN`. -/
def PollClient.Reported (s : PollClient) : Prop := s.ret = 1 ∧ s.revents &&& POLLIN ≠ 0

instance (s : PollClient) : Decidable s.Reported := inferInstanceAs (Decidable (_ ∧ _))

/-- The steps of the process that `main` and the absence of signals leave open. -/
def PollClient.allows (s : PollClient) : ProcStep → Bool
  | .call c => s.pc = .call c
  | .signal => false
  | .passAtOnce | .queue | .test | .sleep | .resume | .timeout | .copy | .clear => true

/-- `main` after the step `r` of its process has led to `sys`. -/
def PollClient.after (s : PollClient) (r : ProcStep) (sys : WaitState Unit) : PollClient :=
  if (sys.procs ()).pc = .idle then
    match s.pc with
    | .call .poll =>
      let (ret, revents) := pollResult r s.sys.dev
      { sys, pc := .returned, ret, revents }
    | .call .read => { s with sys, pc := .call .poll }
    | .returned => { s with sys }
  else { s with sys }

/-- A step of the client or of the callback. -/
def pollClientStep (s : PollClient) : ClientAct → Option PollClient
  | .expire => (waitStep .interrupt2Poll s.sys .expire).map fun sys => { s with sys }
  | .stmt c => (waitStep .interrupt2Poll s.sys (.stmt c)).map fun sys => { s with sys }
  | .proc r => if s.allows r then (procStep s.sys () r).map (s.after r) else none
  | .branch =>
    if s.pc = .returned then
      some { s with pc := if s.Reported then .call .read else .call .poll }
    else none

/-! ## What the client relies on -/

/-- Where `main` and its process stand together, and what `main` relies on there: from the report of
`POLLIN` until the read has copied the value, the flag is up. -/
inductive Inside (reported pressed : Prop) : ClientPc → WaitPc → Prop
  | beforePoll : Inside reported pressed (.call .poll) .idle
  | polling {w : WaitPc} : Polling w → Inside reported pressed (.call .poll) w
  | returned : (reported → pressed) → Inside reported pressed .returned .idle
  | beforeRead : pressed → Inside reported pressed (.call .read) .idle
  | reading {w : WaitPc} : Reading pressed w → Inside reported pressed (.call .read) w

/-- An event that no read has copied: the flag is up, and not only because a read that has copied is
about to clear it. -/
def pending (dev : Device) (w : WaitPc) : ℕ := if dev.Pressed ∧ w ≠ .clearing then 1 else 0

/-- What holds in every run of the client. -/
structure PollClientOk (run : List ClientAct) (s : PollClient) : Prop where
  wait : WaitOk .interrupt2Poll s.sys
  inside : Inside s.Reported s.sys.dev.Pressed s.pc (s.sys.procs ()).pc
  count : run.count (.proc .copy) + pending s.sys.dev (s.sys.procs ()).pc ≤
    run.count (.stmt .setPress)

variable {s t : PollClient} {a : ClientAct} {run : List ClientAct} {reported pressed : Prop}
  {pc : ClientPc} {w : WaitPc}

theorem Inside.imp {pressed' : Prop} (h : Inside reported pressed pc w) (hp : pressed → pressed') :
    Inside reported pressed' pc w := by
  cases h with
  | beforePoll => exact .beforePoll
  | polling h => exact .polling h
  | returned h => exact .returned (hp ∘ h)
  | beforeRead h => exact .beforeRead (hp h)
  | reading h => exact .reading (h.imp hp)

/-- A read that has yet to pass the wait finds the flag up. -/
theorem Inside.flag (h : Inside reported pressed (.call .read) w)
    (hw : w ∈ [.idle, .queueing .read, .testing .read]) : pressed := by
  cases h with
  | beforeRead h => exact h
  | reading h =>
    cases h with
    | queueing h | testing h | copying h => exact h
    | clearing => simp at hw

theorem Inside.not_blocked (h : Inside reported pressed pc w) :
    w ≠ .unset .read ∧ w ≠ .asleep .read := by
  cases h with
  | beforePoll | returned | beforeRead => simp
  | polling h => exact h.not_blocked
  | reading h => exact h.not_blocked

theorem Inside.pressed_of_copying (h : Inside reported pressed pc .copying) : pressed := by
  cases h with
  | polling h => cases h
  | reading h =>
    cases h with
    | copying h => exact h

theorem not_reported_timeout {sys : WaitState Unit} {dev : Device} :
    ¬ (⟨sys, pc, (pollResult .timeout dev).1, (pollResult .timeout dev).2⟩ :
      PollClient).Reported := by
  simp [PollClient.Reported, pollResult]

/-- **Step lemma** for the process of the client. -/
theorem Inside.proc {r : ProcStep} {sys : WaitState Unit}
    (h : Inside s.Reported s.sys.dev.Pressed s.pc (s.sys.procs ()).pc)
    (hflag : s.sys.dev.evPress = 0 ∨ s.sys.dev.evPress = 1) (hallows : s.allows r = true)
    (hproc : ProcSteps s.sys () r sys) :
    Inside (s.after r sys).Reported (s.after r sys).sys.dev.Pressed (s.after r sys).pc
      ((s.after r sys).sys.procs ()).pc := by
  obtain ⟨old, pc, ret, revents⟩ := s
  generalize hw : (old.procs ()).pc = w at h
  cases h with
  | beforePoll =>
    obtain ⟨c, rfl, -, hpc⟩ := hproc.of_idle hw
    obtain rfl : Call.poll = c := by simpa [PollClient.allows] using hallows
    simpa [PollClient.after, hpc] using .polling .queueing
  | polling hpoll =>
    subst hw
    rcases hpoll.proc hproc with hpoll | ⟨hidle, hdev, hend⟩
    · simpa [PollClient.after, hpoll.ne_idle] using .polling hpoll
    · rcases hend with rfl | hready
      · simpa [PollClient.after, hidle, not_reported_timeout] using .returned False.elim
      · have hp : old.dev.Pressed := (keyPoll_ne_zero_iff hflag).1 hready
        simpa [PollClient.after, hidle, hdev] using .returned fun _ => hp
  | returned =>
    obtain ⟨c, rfl, -⟩ := hproc.of_idle hw
    simp [PollClient.allows] at hallows
  | beforeRead hp =>
    obtain ⟨c, rfl, hdev, hpc⟩ := hproc.of_idle hw
    obtain rfl : Call.read = c := by simpa [PollClient.allows] using hallows
    simpa [PollClient.after, hpc, hdev] using .reading (.queueing hp)
  | reading hread =>
    subst hw
    have hsignal : r ≠ .signal := by
      rintro rfl
      simp [PollClient.allows] at hallows
    rcases hread.proc hsignal hproc with hread | hidle
    · simpa [PollClient.after, hread.ne_idle] using .reading hread
    · simpa [PollClient.after, hidle] using .beforePoll

/-! ## The count -/

@[simp] theorem after_sys {r : ProcStep} {sys : WaitState Unit} : (s.after r sys).sys = sys := by
  unfold PollClient.after
  split
  · split <;> rfl
  · rfl

/-- A read that copies has found an event, and no other step of the client makes one. -/
theorem pending_proc {r : ProcStep} {sys : WaitState Unit}
    (h : Inside s.Reported s.sys.dev.Pressed s.pc (s.sys.procs ()).pc)
    (hproc : ProcSteps s.sys () r sys) :
    (if r = .copy then 1 else 0) + pending sys.dev (sys.procs ()).pc ≤
      pending s.sys.dev (s.sys.procs ()).pc := by
  cases hproc with
  | call hpc | passAtOnce hpc | queue hpc | unready hpc | again hpc | sleep hpc | resume hpc
  | timeout hpc | signal hpc => simp [pending, hpc]
  | @ready c hpc => cases c <;> simp [pending, hpc, Call.after]
  | copy hpc =>
    rw [hpc] at h
    simp [pending, hpc, h.pressed_of_copying]
  | clear hpc => simp [pending, clearPress_not_pressed]

/-- A statement of the callback makes at most one event, and only by setting the flag. -/
theorem pending_exec {c : Stmt} {dev : Device} :
    pending (c.exec dev) w ≤ pending dev w + if c = .setPress then 1 else 0 := by
  by_cases hc : c = .setPress
  · rw [if_pos hc]
    unfold pending
    split <;> split <;> omega
  · have hp : (c.exec dev).Pressed ↔ dev.Pressed := by
      rw [Device.Pressed, exec_evPress hc, Device.Pressed]
    rw [if_neg hc]
    exact (if_congr (and_congr_left' hp) rfl rfl).le

/-- A step of the client or the callback keeps the copies and what is pending within the events, and
the flag up from a report to the read. -/
theorem PollClientOk.step (ok : PollClientOk run s) (h : pollClientStep s a = some t) :
    PollClientOk (run ++ [a]) t := by
  have hcount := ok.count
  cases a with
  | expire =>
    obtain ⟨sys, hsys, ⟨⟩⟩ := Option.map_eq_some_iff.1 h
    cases waitSteps_of_waitStep hsys with
    | expire => exact ⟨ok.wait.step hsys, ok.inside, by simpa using hcount⟩
  | stmt c =>
    obtain ⟨sys, hsys, ⟨⟩⟩ := Option.map_eq_some_iff.1 h
    cases waitSteps_of_waitStep hsys with
    | wakeUp => exact ⟨ok.wait.step hsys, ok.inside, by simpa [Proc.wakeUp] using hcount⟩
    | stmt =>
      refine ⟨ok.wait.step hsys, ok.inside.imp exec_pressed, ?_⟩
      have hpending : pending (c.exec s.sys.dev) (s.sys.procs ()).pc ≤ _ := pending_exec
      have hset : List.count (.stmt .setPress) [ClientAct.stmt c] =
          if c = .setPress then 1 else 0 := by
        simp [List.count_singleton]
      simp only [List.count_append, hset]
      simp
      omega
  | proc r =>
    obtain ⟨hallows, h⟩ := Option.ite_none_right_eq_some.1 h
    obtain ⟨sys, hsys, ⟨⟩⟩ := Option.map_eq_some_iff.1 h
    have hproc := procSteps_of_procStep hsys
    refine ⟨?_, ok.inside.proc ok.wait.flag hallows hproc, ?_⟩
    · rw [after_sys]
      exact ok.wait.proc hproc
    · have hpending := pending_proc ok.inside hproc
      have hcopy : List.count (.proc .copy) [ClientAct.proc r] =
          if r = .copy then 1 else 0 := by
        simp [List.count_singleton]
      simp only [List.count_append, hcopy, after_sys]
      simp
      omega
  | branch =>
    obtain ⟨hpc, ⟨⟩⟩ := Option.ite_none_right_eq_some.1 h
    refine ⟨ok.wait, ?_, by simpa using hcount⟩
    have hinside := ok.inside
    rw [hpc] at hinside
    generalize (s.sys.procs ()).pc = w at hinside
    cases hinside with
    | returned hp =>
      by_cases hreported : s.Reported
      · rw [if_pos hreported]
        exact .beforeRead (hp hreported)
      · rw [if_neg hreported]
        exact .beforePoll

/-- In every run the copies and what is pending are within the events, and the flag is up from a
report to the read. -/
theorem reachable_pollClientOk (h : exec pollClientStep .init run = some s) :
    PollClientOk run s := by
  refine exec_induction ?_ (fun _ ok hstep => ok.step hstep) h
  exact ⟨.init, .beforePoll, by simp [pending, PollClient.init, WaitState.init, init_not_pressed]⟩

/-- **The poll client never blocks in a read.** In every state of every run of the client beside the
callback: the flag is 0 or 1, so that `key_poll` reports an event exactly if a read would pass the
wait; a read, which `main` issues only after `poll` has reported `POLLIN`, finds the flag up until
it has passed the wait, so that it neither sleeps nor is about to; and there are at most as many
reads that have copied a value as times that a callback has set the flag. -/
theorem poll_client (run : List ClientAct) (s : PollClient)
    (h : exec pollClientStep .init run = some s) :
    (s.sys.dev.evPress = 0 ∨ s.sys.dev.evPress = 1) ∧
      (s.sys.dev.evPress = 1 ↔ s.sys.dev.Pressed) ∧ (keyPoll s.sys.dev ≠ 0 ↔ s.sys.dev.Pressed) ∧
      (s.pc = .call .read → (s.sys.procs ()).pc ∈ [.idle, .queueing .read, .testing .read] →
        s.sys.dev.Pressed) ∧
      (s.sys.procs ()).pc ≠ .unset .read ∧ (s.sys.procs ()).pc ≠ .asleep .read ∧
      run.count (.proc .copy) ≤ run.count (.stmt .setPress) := by
  have ok := reachable_pollClientOk h
  have hflag := ok.wait.flag
  obtain ⟨hunset, hasleep⟩ := ok.inside.not_blocked
  refine ⟨hflag, ?_, keyPoll_ne_zero_iff hflag, ?_, hunset, hasleep,
    (Nat.le_add_right _ _).trans ok.count⟩
  · rcases hflag with h | h <;> simp [Device.Pressed, h]
  · intro hpc hw
    exact (hpc ▸ ok.inside).flag hw

/-- A callback wakes the client in `poll`, and the next one begins before the client reads. -/
theorem poll_client_read_in_callback :
    ∃ s, exec pollClientStep .init
      [.proc (.call .poll), .proc .queue, .proc .test, .proc .sleep, .expire,
        .stmt (.mdelay 1000), .stmt (.setKt 0 1000000), .stmt .forwardNow, .stmt .toggleValue,
        .stmt .setPress, .stmt .wakeUp, .proc .resume, .proc .test, .branch, .stmt .restart,
        .expire, .proc (.call .read)] = some s ∧ s.sys.dev.Pressed := by
  obtain ⟨s, hs, hpc, hw⟩ : ∃ s, exec pollClientStep .init
      [.proc (.call .poll), .proc .queue, .proc .test, .proc .sleep, .expire,
        .stmt (.mdelay 1000), .stmt (.setKt 0 1000000), .stmt .forwardNow, .stmt .toggleValue,
        .stmt .setPress, .stmt .wakeUp, .proc .resume, .proc .test, .branch, .stmt .restart,
        .expire, .proc (.call .read)] = some s ∧
      s.pc = .call .read ∧ (s.sys.procs ()).pc = .queueing .read := ⟨_, rfl, rfl, rfl⟩
  obtain ⟨-, -, -, hpressed, -⟩ := poll_client _ s hs
  exact ⟨s, hs, hpressed hpc (by simp [hw])⟩

end Starrysky.Press
