import Starrysky.Interrupt.Whole

/-!
# Every call can be completed

Whatever the processes and the kernel have done, a process in a call depends on nothing but the
timer and itself: some run of the timer, the callback and the process alone completes the call, and
it does so within the first interval and the `mdelay` of the callback (`call_completes`). The run
lets a callback end that has begun, waits for the next one if the flag was set before, and goes
through the rest of the call with the flag up.
-/

namespace Starrysky.Interrupt

open Transition

variable {F P : Type}

/-- A step of the timer, of the callback or of the process `p`, which neither a signal nor a timeout
makes. -/
def WholeAct.Alone (p : P) : WholeAct F P → Prop
  | .tick _ | .act .expire | .act .stmt => True
  | .act (.opens _) | .act (.release _) | .act .exit | .act .exitStmt => False
  | .proc q r => q = p ∧ r ≠ .timeout ∧ r ≠ .signal

/-- A running callback can go on with the timer. -/
theorem CallbackOk.timer_enabled {d : Driver} {s : State F} (ok : CallbackOk d s)
    (hne : s.callback ≠ []) (c : Stmt) : ∃ timer, c.timer s.timer = some timer := by
  by_cases hc : c = .press .restart
  · subst hc
    exact ⟨_, if_pos (ok.running.2 hne)⟩
  · exact ⟨_, Stmt.timer_of_ne hc⟩

theorem due_of_dueAt {s : Timed F} (h : s.dueAt ≤ s.now) : s.due .stmt = true := by
  simp only [Timed.due]
  split
  · next hcallback =>
    rw [dueAt_of_mdelay hcallback] at h
    exact decide_eq_true h
  · rfl

variable {d : Press.Driver} {file : P → F} {s t : Whole F P} {run seg : List (WholeAct F P)} {p : P}
  {r : Press.ProcStep} {c : Press.Stmt} {rest : List Press.Stmt} {bound : ℤ}

/-- What the statements of a callback that are left, none of which waits any more, come to. -/
structure RanCallback (p : P) (s t : Whole F P) : Prop where
  cb : t.wait.cb = []
  now : t.timed.now = s.timed.now
  expires : .setPress ∉ s.wait.cb → t.timed.expires = s.timed.expires
  pressed : s.wait.dev.Pressed ∨ .setPress ∈ s.wait.cb → t.wait.dev.Pressed
  pc : (t.wait.procs p).pc = (s.wait.procs p).pc
  queued : (t.wait.procs p).queued = (s.wait.procs p).queued
  woken : (s.wait.procs p).woken = true ∨
    (s.wait.procs p).queued = true ∧ .wakeUp ∈ s.wait.cb → (t.wait.procs p).woken = true

/-- One statement, then the others. -/
theorem RanCallback.cons (hcb : s.wait.cb = c :: rest)
    (hsuffix : s.timed.state.callback <:+ hrtimerHanderInterrupt (.press d))
    (hcallback : s.timed.state.callback = s.wait.cb.map .press) {u : Whole F P}
    (hnow : u.timed.now = s.timed.now)
    (hexpires : c = .wakeUp ∨ c = .restart → u.timed.expires = s.timed.expires)
    (hwait : u.wait = { s.wait with
      dev := c.exec s.wait.dev
      cb := rest
      procs := fun p => if c = .wakeUp then (s.wait.procs p).wakeUp else s.wait.procs p })
    (h : RanCallback p u t) : RanCallback p s t := by
  have hprocs : u.wait.procs p =
      if c = .wakeUp then (s.wait.procs p).wakeUp else s.wait.procs p := by rw [hwait]
  have hrest : u.wait.cb = rest := by rw [hwait]
  have hdev : u.wait.dev = c.exec s.wait.dev := by rw [hwait]
  refine ⟨h.cb, h.now.trans hnow, fun hnot => ?_, fun hp => h.pressed ?_, h.pc.trans ?_,
    h.queued.trans ?_, fun hw => h.woken ?_⟩
  · rw [hcb, List.mem_cons, not_or] at hnot
    have hevent : Stmt.press c = .press .wakeUp ∨ Stmt.press c = .press .restart := by
      refine IsEvent.eq_of_notMem (.inl rfl) hsuffix ?_ ?_
      · simpa [hcallback, hcb] using hnot
      · simp [hcallback, hcb]
    exact (h.expires (hrest ▸ hnot.2)).trans (hexpires (by simpa using hevent))
  · rw [hdev, hrest]
    rw [hcb, List.mem_cons] at hp
    rcases hp with hp | rfl | hp
    · exact .inl (Press.exec_pressed hp)
    · exact .inl (by simp [Press.Stmt.exec, Press.Device.Pressed])
    · exact .inr hp
  · rw [hprocs]
    split <;> rfl
  · rw [hprocs]
    split <;> rfl
  · rw [hprocs, hrest]
    rw [hcb, List.mem_cons] at hw
    rcases hw with hw | ⟨hq, rfl | hw⟩
    · left
      split <;> simp [Press.Proc.wakeUp, hw]
    · left
      simp [Press.Proc.wakeUp, hq]
    · right
      refine ⟨?_, hw⟩
      split <;> exact hq

/-- The callback wakes the processes after it has set the flag. -/
theorem wakeUp_mem {cb : List Press.Stmt} (h : cb <:+ Press.hrtimerHanderInterrupt d)
    (hset : .setPress ∈ cb) : .wakeUp ∈ cb := by
  obtain ⟨before, after, rfl⟩ := List.append_of_mem hset
  simp [(Press.after_setPress ((List.suffix_append ..).trans h)).1]

variable [DecidableEq F] [DecidableEq P] [Fintype P]

/-- The process `p` and the kernel alone can complete the call by the time `bound`. -/
def CompletesBy (d : Press.Driver) (file : P → F) (p : P) (bound : ℤ) (s : Whole F P) : Prop :=
  ∃ seg t, exec (wholeStep d file) s seg = some t ∧ (∀ a ∈ seg, a.Alone p) ∧
    (t.wait.procs p).pc = .idle ∧ t.timed.now ≤ bound

theorem CompletesBy.of_exec (seg : List (WholeAct F P))
    (h : exec (wholeStep d file) s seg = some t) (hseg : ∀ a ∈ seg, a.Alone p)
    (ht : CompletesBy d file p bound t) : CompletesBy d file p bound s := by
  obtain ⟨seg', u, hu, hseg', hidle, hle⟩ := ht
  refine ⟨seg ++ seg', u, exec_join h hu, ?_, hidle, hle⟩
  intro a ha
  exact (List.mem_append.1 ha).elim (hseg a) (hseg' a)

/-! ## The rest of a call, with the flag up -/

/-- A step of the process alone. -/
theorem CompletesBy.of_proc {wait : Press.WaitState P}
    (h : Press.procStep s.wait p r = some wait) (hcall : ∀ c, r ≠ .call c) (htimeout : r ≠ .timeout)
    (hsignal : r ≠ .signal) (ht : CompletesBy d file p bound { s with wait }) :
    CompletesBy d file p bound s := by
  have hallows : s.Allows file p r ∧ s.called p r = s.calledAt := by
    cases r with
    | call c => exact absurd rfl (hcall c)
    | timeout => exact absurd rfl htimeout
    | passAtOnce | queue | test | sleep | resume | signal | copy | clear => exact ⟨trivial, rfl⟩
  have hstep : wholeStep d file s (.proc p r) = some { s with wait } := by
    rw [wholeStep, if_pos hallows.1, h, hallows.2]
    rfl
  refine .of_exec [.proc p r] (by rw [exec_cons, hstep]; rfl) ?_ ht
  intro a ha
  cases List.mem_singleton.1 ha
  exact ⟨rfl, htimeout, hsignal⟩

theorem completes_clearing (hpc : (s.wait.procs p).pc = .clearing) (hle : s.timed.now ≤ bound) :
    CompletesBy d file p bound s := by
  refine .of_proc (r := .clear) (if_pos hpc) (by simp) (by simp) (by simp) ?_
  exact ⟨[], _, rfl, by simp, by simp, hle⟩

theorem completes_copying (hpc : (s.wait.procs p).pc = .copying) (hle : s.timed.now ≤ bound) :
    CompletesBy d file p bound s := by
  refine .of_proc (r := .copy) (if_pos hpc) (by simp) (by simp) (by simp) ?_
  exact completes_clearing (by simp) hle

theorem completes_testing {c : Press.Call} (hpc : (s.wait.procs p).pc = .testing c)
    (hready : c.Ready s.wait.dev) (hle : s.timed.now ≤ bound) : CompletesBy d file p bound s := by
  refine .of_proc (r := .test) (by rw [Press.procStep, hpc]; exact if_pos hready) (by simp)
    (by simp) (by simp) ?_
  cases c with
  | poll => exact ⟨[], _, rfl, by simp, by simp [Press.Call.after], hle⟩
  | read => exact completes_copying (by simp [Press.Call.after]) hle

/-- A process that finds the flag up, and has been woken if it sleeps or is about to, completes its
call at once. -/
theorem completes_of_pressed (hflag : s.wait.dev.evPress = 0 ∨ s.wait.dev.evPress = 1)
    (hp : s.wait.dev.Pressed) (hwoken : (s.wait.procs p).pc.Waits → (s.wait.procs p).woken = true)
    (hle : s.timed.now ≤ bound) : CompletesBy d file p bound s := by
  have hready : ∀ c : Press.Call, c.Ready s.wait.dev
    | .poll => (Press.keyPoll_ne_zero_iff hflag).2 hp
    | .read => hp
  cases hpc : (s.wait.procs p).pc with
  | idle => exact ⟨[], s, rfl, by simp, hpc, hle⟩
  | copying => exact completes_copying hpc hle
  | clearing => exact completes_clearing hpc hle
  | testing c => exact completes_testing hpc (hready c) hle
  | queueing c =>
    refine .of_proc (r := .queue) (by rw [Press.procStep, hpc]) (by simp) (by simp) (by simp) ?_
    exact completes_testing (c := c) (by simp) (hready c) hle
  | unset c =>
    have hwoken := hwoken (by rw [hpc]; trivial)
    refine .of_proc (r := .sleep) (by rw [Press.procStep, hpc]; exact if_pos hwoken) (by simp)
      (by simp) (by simp) ?_
    exact completes_testing (c := c) (by simp) (hready c) hle
  | asleep c =>
    have hwoken := hwoken (by rw [hpc]; trivial)
    refine .of_proc (r := .resume) (by rw [Press.procStep, hpc]; exact if_pos hwoken) (by simp)
      (by simp) (by simp) ?_
    exact completes_testing (c := c) (by simp) (hready c) hle

/-! ## The rest of a callback -/

/-- The next statement of a callback, when it is due. -/
theorem stmt_enabled (ok : WholeOk d file s) (hok : CallbackOk (.press d) s.timed.state)
    (hcb : s.wait.cb = c :: rest) (hdue : s.timed.dueAt ≤ s.timed.now) :
    ∃ t, wholeStep d file s (.act .stmt) = some t ∧ t.timed.now = s.timed.now ∧
      (c = .wakeUp ∨ c = .restart → t.timed.expires = s.timed.expires) ∧
      t.wait = { s.wait with
        dev := c.exec s.wait.dev
        cb := rest
        procs := fun p => if c = .wakeUp then (s.wait.procs p).wakeUp else s.wait.procs p } := by
  have hcallback : s.timed.state.callback = .press c :: rest.map .press := by
    rw [ok.callback, hcb, List.map_cons]
  obtain ⟨timer, htimer⟩ := hok.timer_enabled (by simp [hcallback]) (.press c)
  have hstep : step (.press d) s.timed.state .stmt =
      some { s.timed.state with timer, callback := rest.map .press } := by
    simp [step, hcallback, htimer]
  have htimed : timedStep d s.timed (.act .stmt) = some { (Stmt.press c).timed s.timed with
      state := { s.timed.state with timer, callback := rest.map .press },
      stmtAt := s.timed.now } := by
    rw [timedStep, if_pos (due_of_dueAt hdue), hstep]
    simp [Timed.times, hcallback]
  have hwait : s.waits d file .stmt = some { s.wait with
      dev := c.exec s.wait.dev
      cb := rest
      procs := fun p => if c = .wakeUp then (s.wait.procs p).wakeUp else s.wait.procs p } := by
    simp [Whole.waits, Press.waitStep, hcb]
  refine ⟨_, by rw [wholeStep, htimed, hwait]; rfl, (Stmt.press c).timed_now, ?_, rfl⟩
  rintro (rfl | rfl) <;> rfl

/-- The statements of a callback that are left, when the first of them is due. -/
theorem run_stmts (h : exec (wholeStep d file) (.init d) run = some s)
    (hdue : s.wait.cb ≠ [] → s.timed.dueAt ≤ s.timed.now) : ∃ seg t,
      exec (wholeStep d file) s seg = some t ∧ (∀ a ∈ seg, a.Alone p) ∧ RanCallback p s t := by
  generalize hcb : s.wait.cb = cb
  induction cb generalizing s run with
  | nil =>
    refine ⟨[], s, rfl, by simp, hcb, rfl, fun _ => rfl, ?_, rfl, rfl, ?_⟩
    · simp [hcb]
    · simp [hcb]
  | cons c rest ih =>
    have ok := reachable_wholeOk h
    have hok := reachable_callbackOk (timed_refines (whole_refines h))
    obtain ⟨u, hu, hnow, hexpires, hwait⟩ := stmt_enabled ok hok hcb (hdue (by simp [hcb]))
    have hrun := exec_concat.2 ⟨s, h, hu⟩
    have hrest : u.timed.state.callback = rest.map .press := by
      rw [(reachable_wholeOk hrun).callback, hwait]
    have hsuffix : .press c :: u.timed.state.callback <:+ hrtimerHanderInterrupt (.press d) := by
      rw [hrest, ← List.map_cons, ← hcb, ← ok.callback]
      exact hok.suffix
    have hdue' : u.wait.cb ≠ [] → u.timed.dueAt ≤ u.timed.now := by
      intro hne
      refine (dueAt_of_suffix hsuffix ?_).le
      rw [hrest]
      simpa [hwait] using hne
    obtain ⟨seg, t, hseg, halone, hran⟩ := ih hrun hdue' (by rw [hwait])
    refine ⟨.act .stmt :: seg, t, by rw [exec_cons, hu]; exact hseg, ?_, ?_⟩
    · simpa [WholeAct.Alone] using halone
    · exact hran.cons hcb hok.suffix ok.callback hnow hexpires hwait

/-! ## Up to the next event -/

/-- Time passes. -/
theorem CompletesBy.of_tick (nsecs : ℕ) (ht : CompletesBy d file p bound
    { s with timed := { s.timed with now := s.timed.now + nsecs } }) :
    CompletesBy d file p bound s :=
  .of_exec [.tick nsecs] rfl (by simp [WholeAct.Alone]) ht

/-- A call that finds a callback before its events completes when the callback has run. -/
theorem completes_of_due (h : exec (wholeStep d file) (.init d) run = some s)
    (hset : .setPress ∈ s.wait.cb) (hdue : s.timed.dueAt ≤ s.timed.now)
    (hle : s.timed.now ≤ bound) : CompletesBy d file p bound s := by
  have ok := (reachable_wholeOk h).wait
  obtain ⟨seg, t, hseg, halone, hran⟩ := run_stmts (p := p) h fun _ => hdue
  have hrun : exec (wholeStep d file) (.init d) (run ++ seg) = some t := exec_join h hseg
  have hflag := (reachable_wholeOk hrun).wait.flag
  refine .of_exec seg hseg halone (completes_of_pressed hflag (hran.pressed (.inr hset)) ?_
    (hran.now.trans_le hle))
  intro hwaits
  rw [hran.pc] at hwaits
  exact hran.woken (.inr ⟨ok.queued p hwaits, wakeUp_mem ok.cb hset⟩)

theorem completes_of_begun (h : exec (wholeStep d file) (.init d) run = some s)
    (hok : PunctualOk d s.timed) (hset : .setPress ∈ s.wait.cb)
    (hle : s.timed.now + delay d ≤ bound) : CompletesBy d file p bound s := by
  have hdelay : 0 ≤ delay d := delay_nonneg
  have hdue : s.timed.dueAt ≤ s.timed.now + delay d := by
    refine hok.dueAt_le ?_
    rw [(reachable_wholeOk h).callback]
    simpa using List.ne_nil_of_mem hset
  have htick := dueAt_tick (s := s.timed) (s.timed.dueAt - s.timed.now).toNat
  refine .of_tick (s.timed.dueAt - s.timed.now).toNat ?_
  have hrun := exec_concat.2 ⟨s, h, (rfl : wholeStep d file s
    (.tick (s.timed.dueAt - s.timed.now).toNat) = some _)⟩
  refine completes_of_due hrun hset ?_ ?_
  · dsimp only
    omega
  · dsimp only
    omega

/-- The timer expires, when it is time and no callback runs. -/
theorem expire_enabled (hok : PunctualOk d s.timed) (ok : WholeOk d file s) (hcb : s.wait.cb = [])
    (hdue : s.timed.expires ≤ s.timed.now) :
    ∃ t, wholeStep d file s (.act .expire) = some t ∧ t.timed.now = s.timed.now ∧
      t.wait = { s.wait with cb := Press.hrtimerHanderInterrupt d } := by
  have hrunning : s.timed.state.timer.running = false := by
    rw [← Bool.not_eq_true, hok.callback.running, ok.callback, hcb]
    simp
  have harmed : s.timed.state.timer.armed = true := by
    simpa [Hrtimer.Active, hrunning] using hok.active
  have hexpire : s.timed.state.timer.expire = some ⟨false, true⟩ := if_pos ⟨harmed, hrunning⟩
  refine ⟨{ s with
    timed := { s.timed with
      state := { s.timed.state with
        timer := ⟨false, true⟩, callback := hrtimerHanderInterrupt (.press d) }
      stmtAt := s.timed.now }
    wait := { s.wait with cb := Press.hrtimerHanderInterrupt d } }, ?_, rfl, rfl⟩
  simp [wholeStep, timedStep, Timed.due, hdue, step, hexpire, Whole.waits, Press.waitStep, hcb,
    Timed.times]

/-- **Every call can be completed.** In every state that a run of the two drivers reaches, with any
number of files and processes wherever in their calls: some continuation in which only time passes,
the timer expires, the callback runs and the process `p` takes steps, none by a signal or a timeout,
completes the call of `p`, within the first interval and the `mdelay` of the callback. -/
theorem call_completes {F P : Type} [DecidableEq F] [DecidableEq P] [Fintype P] (d : Press.Driver)
    (hd : d ≠ .miniatureDriver) (file : P → F) (run : List (WholeAct F P)) (s : Whole F P) (p : P)
    (h : exec (wholeStep d file) (.init d) run = some s) (hp : (s.wait.procs p).pc ≠ .idle) :
    ∃ seg t, exec (wholeStep d file) s seg = some t ∧ (∀ a ∈ seg, a.Alone p) ∧
      (t.wait.procs p).pc = .idle ∧ t.timed.now ≤ s.timed.now + (firstKt + delay d) := by
  have hok := punctualOk_of_call hd h hp
  have hkt : (0 : ℤ) ≤ firstKt := by decide
  by_cases hset : .setPress ∈ s.wait.cb
  · exact completes_of_begun h hok hset (by omega)
  · -- the callback that runs, if any, has had its events: let it end, then wait for the next one
    have ok := reachable_wholeOk h
    have hnot : .press .setPress ∉ s.timed.state.callback := by simpa [ok.callback] using hset
    have hdue : s.wait.cb ≠ [] → s.timed.dueAt ≤ s.timed.now := by
      intro hne
      obtain ⟨c, rest, hcb⟩ := List.exists_cons_of_ne_nil hne
      have hcallback : s.timed.state.callback = .press c :: rest.map .press := by
        rw [ok.callback, hcb, List.map_cons]
      refine (dueAt_of_ne_mdelay hcallback ?_).le
      rintro msecs hc
      have hevent := IsEvent.eq_of_notMem (.inl rfl) hok.callback.suffix hnot
        (hcallback ▸ List.mem_cons_self)
      simp [hc] at hevent
    have huntil : s.timed.untilEvent d .setPress ≤ firstKt + delay d := hok.untilEvent_le
    rw [Timed.untilEvent, if_neg hnot] at huntil
    obtain ⟨seg, t, hseg, halone, hran⟩ := run_stmts (p := p) h hdue
    have hrun : exec (wholeStep d file) (.init d) (run ++ seg) = some t := exec_join h hseg
    refine CompletesBy.of_exec seg hseg halone (.of_tick (t.timed.expires - t.timed.now).toNat ?_)
    have htick := exec_concat.2 ⟨t, hrun, (rfl : wholeStep d file t
      (.tick (t.timed.expires - t.timed.now).toNat) = some _)⟩
    have hpc : (t.wait.procs p).pc ≠ .idle := by rwa [hran.pc]
    obtain ⟨u, hu, hnow, hwait⟩ := expire_enabled (punctualOk_of_call hd htick hpc)
      (reachable_wholeOk htick) hran.cb (by dsimp only; omega)
    have hrun := exec_concat.2 ⟨_, htick, hu⟩
    have hmem : .setPress ∈ Press.hrtimerHanderInterrupt d := by cases d <;> decide
    have hbegun : .setPress ∈ u.wait.cb := by rwa [hwait]
    refine CompletesBy.of_exec [.act .expire] (by rw [exec_cons, hu]; rfl)
      (by simp [WholeAct.Alone])
      (completes_of_begun hrun (punctualOk_of_call hd hrun (p := p) (by rwa [hwait]))
        hbegun ?_)
    have hexpires := hran.expires hset
    have hnow' := hran.now
    dsimp only at hnow
    omega

theorem call_completes_asleep : ∃ s : Whole (Fin 1) (Fin 1),
    exec (wholeStep .interrupt2Poll id) (.init .interrupt2Poll) [.act (.opens 0),
      .proc 0 (.call .read), .proc 0 .queue, .proc 0 .test, .proc 0 .sleep] = some s ∧
    ∃ seg t, exec (wholeStep .interrupt2Poll id) s seg = some t ∧ (∀ a ∈ seg, a.Alone 0) ∧
      (t.wait.procs 0).pc = .idle ∧ t.timed.now ≤ s.timed.now + 2000000010 := by
  refine ⟨_, rfl, ?_⟩
  exact call_completes .interrupt2Poll (by decide) id [.act (.opens 0), .proc 0 (.call .read),
    .proc 0 .queue, .proc 0 .test, .proc 0 .sleep] _ 0 rfl (by decide)

end Starrysky.Interrupt
