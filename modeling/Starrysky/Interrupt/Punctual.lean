import Starrysky.Interrupt.Armed
import Starrysky.Interrupt.Deadline
import Starrysky.Lib.Cost

/-!
# How long the next event takes

An event is a statement of the callback by which it tells the processes of the new value: it sets
`ev_press`, then it wakes them. The kernel may be late: it lets time pass although the timer has
expired, or although the callback has come to a statement that does not wait. Between two opens the
time to the next event is bounded by the first interval and the `mdelay` of the callback, but for
what the kernel is late (`event_in_time`). The proof is an accounting one: `untilEvent` is the time
to the next event if the kernel is never late, and every step that lets time pass in time is paid
for by it.
-/

namespace Starrysky.Interrupt

open Transition

variable {F : Type}

/-- The statements that tell the processes of a new value. -/
def IsEvent (e : Press.Stmt) : Prop := e = .setPress ∨ e = .wakeUp

/-- The time that a callback waits before its events. -/
def delay : Press.Driver → ℤ
  | .interrupt2Poll => 1000000000
  | .interrupt3Epoll | .miniatureDriver => 0

/-- The time from which the kernel can take the next step of the timer or the callback. -/
def Timed.dueAt (s : Timed F) : ℤ :=
  match s.state.callback with
  | [] => s.expires
  | .press (.mdelay msecs) :: _ => s.stmtAt + msecs * 1000000
  | .press _ :: _ | .killFasync :: _ => s.now

def TimedAct.nsecs : TimedAct F → ℤ
  | .tick nsecs => nsecs
  | .act _ => 0

/-- The part of the time that a step lets pass in which the next step of the timer or the callback
is due. -/
def Timed.late (s : Timed F) (a : TimedAct F) : ℤ :=
  if s.state.timer.Active then max 0 (s.now + a.nsecs - max s.now s.dueAt) else 0

/-- The time to the next event `e`, if the kernel is not late and no file is opened. -/
def Timed.untilEvent (d : Press.Driver) (e : Press.Stmt) (s : Timed F) : ℤ :=
  if .press e ∈ s.state.callback then max 0 (s.dueAt - s.now)
  else max 0 (s.expires - s.now) + delay d

/-- The step neither opens a file nor begins `hello_exit`, and it is not the event `e`. -/
def Eventless (e : Press.Stmt) (_ : List (TimedAct F)) (s : Timed F) (a : TimedAct F) : Prop :=
  (∀ f, a ≠ .act (.opens f)) ∧ a ≠ .act .exit ∧
    (a = .act .stmt → s.state.callback.head? ≠ some (.press e))

/-- What holds between an open and `hello_exit`. -/
structure PunctualOk (d : Press.Driver) (s : Timed F) : Prop where
  times : TimesOk d s
  callback : CallbackOk (.press d) s.state
  active : s.state.timer.Active
  exit : s.state.exit = none
  stmtAt_le : s.stmtAt ≤ s.now

variable {d : Press.Driver} {s t : Timed F} {a : TimedAct F} {run : List (TimedAct F)} {c : Stmt}
  {rest : List Stmt} {e : Press.Stmt}

/-! ## The callback before and after its event -/

theorem delay_nonneg : 0 ≤ delay d := by
  cases d <;> decide

theorem IsEvent.mem (he : IsEvent e) : .press e ∈ hrtimerHanderInterrupt (.press d) := by
  rcases he with rfl | rfl
  · cases d <;> decide
  · cases d <;> decide

/-- No statement of the callback but the first waits. -/
theorem not_mdelay_of_suffix (h : c :: rest <:+ hrtimerHanderInterrupt (.press d)) (msecs : ℕ) :
    .press (.mdelay msecs) ∉ rest := by
  have htails : ∀ l ∈ (hrtimerHanderInterrupt (.press d)).tails, ∀ c ∈ l.tail,
      c ∈ [.press .toggleValue, .press (.setKt 0 1000000), .press (.setKt 1 0), .press .forwardNow,
        .press .setPress, .press .wakeUp, .press .restart] := by
    cases d with
    | interrupt2Poll | interrupt3Epoll | miniatureDriver => decide
  intro hmem
  simpa using htails _ ((List.mem_tails _ _).2 h) _ hmem

/-- After an event a callback neither waits nor forwards the timer. -/
theorem IsEvent.eq_of_notMem {callback : List Stmt} (he : IsEvent e)
    (h : callback <:+ hrtimerHanderInterrupt (.press d)) (hnot : .press e ∉ callback)
    (hc : c ∈ callback) : c = .press .wakeUp ∨ c = .press .restart := by
  have htails : ∀ l ∈ (hrtimerHanderInterrupt (.press d)).tails,
      .press .setPress ∉ l ∨ .press .wakeUp ∉ l →
        ∀ c ∈ l, c = .press .wakeUp ∨ c = .press .restart := by
    cases d with
    | interrupt2Poll | interrupt3Epoll | miniatureDriver => decide
  refine htails _ ((List.mem_tails _ _).2 h) ?_ c hc
  rcases he with rfl | rfl
  · exact .inl hnot
  · exact .inr hnot

/-! ## When the next step is due -/

theorem dueAt_of_nil (h : s.state.callback = []) : s.dueAt = s.expires := by
  simp [Timed.dueAt, h]

theorem dueAt_of_mdelay {msecs : ℕ} (h : s.state.callback = .press (.mdelay msecs) :: rest) :
    s.dueAt = s.stmtAt + msecs * 1000000 := by
  simp [Timed.dueAt, h]

theorem dueAt_of_ne_mdelay (h : s.state.callback = c :: rest)
    (hc : ∀ msecs, c ≠ .press (.mdelay msecs)) : s.dueAt = s.now := by
  unfold Timed.dueAt
  rw [h]
  split
  · next hnil => cases hnil
  · next hcons =>
    cases hcons
    exact absurd rfl (hc _)
  all_goals rfl

/-- A callback that has run its first statement never waits again. -/
theorem dueAt_of_suffix (h : c :: s.state.callback <:+ hrtimerHanderInterrupt (.press d))
    (hne : s.state.callback ≠ []) : s.dueAt = s.now := by
  obtain ⟨c', rest, hcallback⟩ := List.exists_cons_of_ne_nil hne
  refine dueAt_of_ne_mdelay hcallback ?_
  rintro msecs rfl
  exact not_mdelay_of_suffix h msecs (by simp [hcallback])

/-- A callback waits for its first statement alone, and for no longer than `delay`. -/
theorem PunctualOk.dueAt_le (ok : PunctualOk d s) (hne : s.state.callback ≠ []) :
    s.dueAt ≤ s.now + delay d := by
  obtain ⟨c, rest, hcallback⟩ := List.exists_cons_of_ne_nil hne
  have hmem : c ∈ hrtimerHanderInterrupt (.press d) :=
    (hcallback ▸ ok.callback.suffix).subset List.mem_cons_self
  have hstmtAt := ok.stmtAt_le
  by_cases hc : ∃ msecs, c = .press (.mdelay msecs)
  · obtain ⟨msecs, rfl⟩ := hc
    rw [dueAt_of_mdelay hcallback]
    cases d with
    | interrupt2Poll =>
      simp [hrtimerHanderInterrupt, Press.hrtimerHanderInterrupt] at hmem
      simp [hmem, delay]
      omega
    | interrupt3Epoll | miniatureDriver =>
      simp [hrtimerHanderInterrupt, Press.hrtimerHanderInterrupt] at hmem
  · rw [dueAt_of_ne_mdelay hcallback (by simpa using hc)]
    exact Int.le_add_of_nonneg_right delay_nonneg

theorem PunctualOk.untilEvent_le (ok : PunctualOk d s) : s.untilEvent d e ≤ firstKt + delay d := by
  have hbase := ok.times.base_le
  have hexpires := ok.times.expires
  have hkt : (0 : ℤ) ≤ firstKt := by decide
  have hdelay : 0 ≤ delay d := delay_nonneg
  have hinterval : s.interval ≤ firstKt := by
    rcases ok.times.interval with h | ⟨h, -⟩
    · rcases ok.times.kt with hkt | hkt
      · exact (h.trans hkt).le
      · exact (h.trans hkt).trans_le laterKt_lt.le
    · exact h.le
  unfold Timed.untilEvent
  split
  · next hmem =>
    have hdue := ok.dueAt_le (List.ne_nil_of_mem hmem)
    omega
  · omega

theorem untilEvent_nonneg : 0 ≤ s.untilEvent d e := by
  have hdelay : 0 ≤ delay d := delay_nonneg
  unfold Timed.untilEvent
  split <;> omega

/-- Time that passes does not move what the timer and the callback wait for. -/
theorem dueAt_tick (nsecs : ℕ) : ({ s with now := s.now + nsecs } : Timed F).dueAt = s.dueAt ∨
    s.dueAt = s.now ∧ ({ s with now := s.now + nsecs } : Timed F).dueAt = s.now + nsecs := by
  simp only [Timed.dueAt]
  split <;> simp

theorem Stmt.timed_now (c : Stmt) : (c.timed s).now = s.now := by
  unfold Stmt.timed
  split
  · rfl
  · unfold Timed.forwardNow
    split <;> rfl
  all_goals rfl

theorem late_act (a : Act F) : s.late (.act a) = 0 := by
  have hnsecs : (TimedAct.act a).nsecs = 0 := rfl
  unfold Timed.late
  split
  · omega
  · rfl

/-! ## What a step pays for -/

/-- Time that passes brings the event nearer, unless the kernel is late. -/
theorem PunctualOk.tick (he : IsEvent e) (ok : PunctualOk d s) (nsecs : ℕ) :
    s.now + nsecs + ({ s with now := s.now + nsecs } : Timed F).untilEvent d e ≤
      s.now + s.untilEvent d e + s.late (.tick nsecs) := by
  have hlate : s.late (.tick nsecs) = max 0 (s.now + nsecs - max s.now s.dueAt) :=
    if_pos ok.active
  have hdue := dueAt_tick (s := s) nsecs
  rw [hlate, Timed.untilEvent, Timed.untilEvent]
  by_cases hmem : .press e ∈ s.state.callback
  · rw [if_pos hmem, if_pos hmem]
    dsimp only
    omega
  · rw [if_neg hmem, if_neg hmem]
    dsimp only
    have hexpires : s.dueAt = s.expires ∨ s.dueAt = s.now := by
      by_cases hnil : s.state.callback = []
      · exact .inl (dueAt_of_nil hnil)
      · obtain ⟨c, rest, hcallback⟩ := List.exists_cons_of_ne_nil hnil
        refine .inr (dueAt_of_ne_mdelay hcallback ?_)
        rintro msecs rfl
        have hmem := he.eq_of_notMem ok.callback.suffix hmem (hcallback ▸ List.mem_cons_self)
        simp at hmem
    omega

variable [DecidableEq F]

theorem act_of_timedStep {b : Act F} (h : timedStep d s (.act b) = some t) :
    ∃ state, step (.press d) s.state b = some state ∧ t = { s.times b with state } := by
  obtain ⟨-, h⟩ := Option.ite_none_right_eq_some.1 h
  obtain ⟨state, hstep, rfl⟩ := Option.map_eq_some_iff.1 h
  exact ⟨state, hstep, rfl⟩

/-- A statement of the callback other than its event comes in time for the event. -/
theorem PunctualOk.stmt (he : IsEvent e) (ok : PunctualOk d s)
    (hne : s.state.callback.head? ≠ some (.press e))
    (h : timedStep d s (.act .stmt) = some t) : t.untilEvent d e ≤ s.untilEvent d e := by
  obtain ⟨state, hstep, rfl⟩ := act_of_timedStep h
  cases steps_of_step hstep with
  | @stmt c rest timer hcallback htimer =>
    have hsuffix : c :: rest <:+ hrtimerHanderInterrupt (.press d) :=
      hcallback ▸ ok.callback.suffix
    have hc : c ≠ .press e := by simpa [hcallback] using hne
    simp only [Timed.times, hcallback]
    by_cases hmem : .press e ∈ rest
    · -- what is left of the callback before its event never waits
      have hzero : ({ c.timed s with state := { s.state with timer, callback := rest },
                                     stmtAt := s.now } : Timed F).untilEvent d e = 0 := by
        rw [Timed.untilEvent, if_pos hmem,
          dueAt_of_suffix (d := d) hsuffix (List.ne_nil_of_mem hmem)]
        simp
      rw [hzero, Timed.untilEvent, if_pos (by simp [hcallback, hmem])]
      exact Int.le_max_left _ _
    · have hnot : .press e ∉ s.state.callback := by simp [hcallback, hmem, hc.symm]
      have htimed : c.timed s = s := by
        rcases he.eq_of_notMem ok.callback.suffix hnot
          (hcallback ▸ List.mem_cons_self) with rfl | rfl <;> rfl
      rw [Timed.untilEvent, Timed.untilEvent, if_neg hmem, if_neg hnot, htimed]

/-- A callback that begins has no more to wait for than its `mdelay`. -/
theorem PunctualOk.expire (he : IsEvent e) (ok : PunctualOk d s) (okt : PunctualOk d t)
    (h : timedStep d s (.act .expire) = some t) : t.untilEvent d e ≤ s.untilEvent d e := by
  obtain ⟨state, hstep, rfl⟩ := act_of_timedStep h
  cases steps_of_step hstep with
  | expire htimer =>
    obtain ⟨⟨-, hrunning⟩, -⟩ := Option.ite_none_right_eq_some.1 htimer
    have hnil : s.state.callback = [] := by
      by_contra hne
      simp [ok.callback.running.2 hne] at hrunning
    have hmem : .press e ∈ hrtimerHanderInterrupt (.press d) := he.mem
    have hdue := okt.dueAt_le (List.ne_nil_of_mem hmem)
    have hdelay : 0 ≤ delay d := delay_nonneg
    rw [Timed.untilEvent, Timed.untilEvent, if_pos hmem, if_neg (by simp [hnil])]
    simp only [Timed.times] at hdue ⊢
    omega

theorem stmtAt_le_of_step (hle : s.stmtAt ≤ s.now) (h : timedStep d s a = some t) :
    t.stmtAt ≤ t.now := by
  cases a with
  | tick nsecs =>
    cases h
    exact hle.trans (Int.le_add_of_nonneg_right (by simp))
  | act a =>
    obtain ⟨state, -, rfl⟩ := act_of_timedStep h
    cases a with
    | opens | release | exit | exitStmt => exact hle
    | expire => exact le_rfl
    | stmt =>
      cases hcallback : s.state.callback with
      | nil => simpa [Timed.times, hcallback] using hle
      | cons c rest => simp [Timed.times, hcallback, Stmt.timed_now]

/-- Until `hello_exit` comes, a step keeps the timer active and the times in order. -/
theorem PunctualOk.step (hd : d ≠ .miniatureDriver) (ok : PunctualOk d s) (hexit : a ≠ .act .exit)
    (h : timedStep d s a = some t) : PunctualOk d t := by
  have htimes : TimesOk d t := ok.times.step ok.callback.suffix h
  have hstmtAt : t.stmtAt ≤ t.now := stmtAt_le_of_step ok.stmtAt_le h
  cases a with
  | tick nsecs =>
    cases h
    exact ⟨htimes, ok.callback, ok.active, ok.exit, hstmtAt⟩
  | act a =>
    obtain ⟨state, hstep, rfl⟩ := act_of_timedStep h
    have hsteps := steps_of_step hstep
    have hcallback : CallbackOk (.press d) state := ok.callback.step hsteps
    cases hsteps with
    | opens => exact ⟨htimes, hcallback, Hrtimer.active_start, ok.exit, hstmtAt⟩
    | exit => exact absurd rfl hexit
    | exitStmt hsome =>
      rw [ok.exit] at hsome
      cases hsome
    | release _ htimer =>
      obtain rfl := dmiscRelease_of_ne (by simpa using hd) htimer
      exact ⟨htimes, hcallback, ok.active, ok.exit, hstmtAt⟩
    | expire htimer =>
      exact ⟨htimes, hcallback, (Hrtimer.active_of_expire htimer).2, ok.exit, hstmtAt⟩
    | @stmt c _ _ _ htimer =>
      exact ⟨htimes, hcallback, (c.active_iff htimer).2 ok.active, ok.exit, hstmtAt⟩

/-- **The time to the event pays for a step**, but for what the kernel is late. -/
theorem PunctualOk.le_add_late (hd : d ≠ .miniatureDriver) (he : IsEvent e) (ok : PunctualOk d s)
    (hC : Eventless e run s a) (h : timedStep d s a = some t) :
    t.now + t.untilEvent d e ≤ s.now + s.untilEvent d e + s.late a := by
  obtain ⟨hopens, hexit, hstmt⟩ := hC
  have okt : PunctualOk d t := ok.step hd hexit h
  cases a with
  | tick nsecs =>
    cases h
    exact ok.tick he nsecs
  | act a =>
    rw [late_act, Int.add_zero]
    have htimed := h
    obtain ⟨state, hstep, rfl⟩ := act_of_timedStep h
    cases steps_of_step hstep with
    | opens => exact absurd rfl (hopens _)
    | exit => exact absurd rfl hexit
    | exitStmt hsome =>
      rw [ok.exit] at hsome
      cases hsome
    | release _ htimer =>
      obtain rfl := dmiscRelease_of_ne (by simpa using hd) htimer
      exact le_rfl
    | expire => exact Int.add_le_add_left (ok.expire he okt htimed) _
    | @stmt c _ _ hcons =>
      have hnow : (c.timed s).now = s.now := c.timed_now
      have hle := Int.add_le_add_left (ok.stmt he (hstmt rfl) htimed) s.now
      simpa [Timed.times, hcons, hnow] using hle

theorem reachable_punctualOk (hd : d ≠ .miniatureDriver) {f : F}
    (h : exec (timedStep d) .init run = some s) (hopen : .opens f ∈ run.flatMap TimedAct.acts)
    (hexit : s.state.exit = none) : PunctualOk d s := by
  have hrefines := timed_refines h
  have hne : Driver.press d ≠ .press .miniatureDriver := by simpa using hd
  have hactive := (reachable_timerOk hne hrefines).active ⟨f, hopen⟩
    (by simp [State.Cancelled, hexit])
  refine ⟨reachable_timesOk h, reachable_callbackOk hrefines, hactive, hexit, ?_⟩
  exact exec_induction (P := fun _ s => s.stmtAt ≤ s.now) le_rfl
    (fun _ hle hstep => stmtAt_le_of_step hle hstep) h

/-! ## What a run pays for -/

/-- The time of a run that the kernel is late. -/
def lateness (d : Press.Driver) : Timed F → List (TimedAct F) → ℤ := cost (timedStep d) Timed.late

/-- **An event comes in time.** In the two drivers, at any time after an open and before
`hello_exit`: as long as no callback sets the flag (no callback wakes the processes) and no file is
opened, no more time passes than the first interval and the `mdelay` of the callback, but for what
the kernel is late. -/
theorem event_in_time {F : Type} [DecidableEq F] (d : Press.Driver) (hd : d ≠ .miniatureDriver)
    (e : Press.Stmt) (he : IsEvent e) (run seg : List (TimedAct F)) (s t : Timed F) (f : F)
    (h : exec (timedStep d) .init run = some s) (hopen : .act (.opens f) ∈ run)
    (hexit : s.state.exit = none) (hseg : exec (timedStep d) s seg = some t)
    (heventless : Meets (timedStep d) s (Eventless e) seg) :
    t.now - s.now ≤ firstKt + delay d + lateness d s seg := by
  have hopens : .opens f ∈ run.flatMap TimedAct.acts :=
    List.mem_flatMap.2 ⟨_, hopen, by simp [TimedAct.acts]⟩
  have ok := reachable_punctualOk hd h hopens hexit
  have hcost : t.now + t.untilEvent d e ≤ s.now + s.untilEvent d e + lateness d s seg :=
    (le_add_cost (fun ok hC hstep => ⟨ok.step hd hC.2.1 hstep, ok.le_add_late hd he hC hstep⟩)
      ok heventless hseg).2
  have huntil : s.untilEvent d e ≤ firstKt + delay d := ok.untilEvent_le
  have hnonneg : 0 ≤ t.untilEvent d e := untilEvent_nonneg
  omega

instance [Fintype F] (run : List (TimedAct F)) (s : Timed F) (a : TimedAct F) :
    Decidable (Eventless e run s a) :=
  inferInstanceAs (Decidable (_ ∧ _ ∧ (_ → _)))

/-- The kernel is in time, and the bound is met to the nanosecond. -/
theorem event_in_time_first : ∃ s t : Timed (Fin 1),
    exec (timedStep .interrupt2Poll) .init [.act (.opens 0)] = some s ∧
    exec (timedStep .interrupt2Poll) s [.tick 1000000010, .act .expire, .tick 1000000000,
      .act .stmt, .act .stmt, .act .stmt, .act .stmt] = some t ∧
    lateness .interrupt2Poll s [.tick 1000000010, .act .expire, .tick 1000000000,
      .act .stmt, .act .stmt, .act .stmt, .act .stmt] = 0 ∧
    t.now - s.now = 2000000010 ∧ t.now - s.now ≤ firstKt + delay .interrupt2Poll +
      lateness .interrupt2Poll s [.tick 1000000010, .act .expire, .tick 1000000000,
        .act .stmt, .act .stmt, .act .stmt, .act .stmt] := by
  refine ⟨_, _, rfl, rfl, by decide +kernel, by decide +kernel, ?_⟩
  exact event_in_time .interrupt2Poll (by decide) .setPress (.inl rfl) [.act (.opens 0)] _ _ _ 0
    rfl (by simp) rfl rfl (by decide +kernel)

end Starrysky.Interrupt
