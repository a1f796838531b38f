import Starrysky.Interrupt.Driver
import Mathlib.Data.Fintype.Basic

/-!
# The time of the expiry

Every open starts the one timer of the driver, and a start replaces the expiry of a timer that is
armed already. The machine adds time to that of `Driver`, for the drivers with a wait queue: the
time now, the interval `kt`, and the expiry. The pending expiry counts from the time `base`, that of
the open that set it or a whole number of intervals after the expiry before, and was set with the
interval `interval`. An open does not postpone it exactly if no time has passed since `base`, or no
more than `kt` has become shorter by (`not_postponed_iff`). Clients that go on opening the device,
each soon enough after the one before, keep the timer from expiring (`expire_suppressed`).
-/

namespace Starrysky.Interrupt

open Transition

/-- The interval until the first callback sets another. -/
def firstKt : ℤ := Press.ktimeSet 1 10

/-- The interval that the callback sets. -/
def laterKt : Press.Driver → ℤ
  | .interrupt2Poll => Press.ktimeSet 0 1000000
  | .interrupt3Epoll | .miniatureDriver => Press.ktimeSet 1 0

/-- The driver with the time, in nanoseconds. `stmtAt` is when the callback has come to its next
statement. -/
structure Timed (F : Type) where
  state : State F
  now : ℤ
  kt : ℤ
  expires : ℤ
  stmtAt : ℤ
  base : ℤ
  interval : ℤ

inductive TimedAct (F : Type) where
  /-- time passes -/
  | tick (nsecs : ℕ)
  | act (a : Act F)
  deriving DecidableEq

variable {F : Type}

def Timed.init : Timed F :=
  { state := .init, now := 0, kt := firstKt, expires := 0, stmtAt := 0, base := -firstKt,
    interval := firstKt }

/-- The time has come for the step: an expiry is not early, and `mdelay` has waited. -/
def Timed.due (s : Timed F) : Act F → Bool
  | .expire => s.expires ≤ s.now
  | .stmt =>
    match s.state.callback with
    | .press (.mdelay msecs) :: _ => s.stmtAt + msecs * 1000000 ≤ s.now
    | _ => true
  | .opens _ | .release _ | .exit | .exitStmt => true

/-- `hrtimer_start(&timer, kt, HRTIMER_MODE_REL)` -/
def Timed.start (s : Timed F) : Timed F :=
  { s with expires := s.now + s.kt, base := s.now, interval := s.kt }

/-- `hrtimer_forward_now(timer, kt)`, which leaves a timer alone that is enqueued. -/
def Timed.forwardNow (s : Timed F) : Timed F :=
  if s.state.timer.armed = true ∨ s.now < s.expires then s
  else
    let expires := Hrtimer.forward s.now s.kt s.expires
    { s with expires, base := expires - s.kt, interval := s.kt }

/-- What a statement of the callback does to the interval and the expiry. -/
def Stmt.timed : Stmt → Timed F → Timed F
  | .press (.setKt secs nsecs), s => { s with kt := Press.ktimeSet secs nsecs }
  | .press .forwardNow, s => s.forwardNow
  | .press (.mdelay _), s | .press .toggleValue, s | .press .setPress, s | .press .wakeUp, s
  | .press .restart, s | .killFasync, s => s

/-- What a step does to the times. -/
def Timed.times (s : Timed F) : Act F → Timed F
  | .opens _ => s.start
  | .expire => { s with stmtAt := s.now }
  | .stmt =>
    match s.state.callback with
    | [] => s
    | c :: _ => { c.timed s with stmtAt := s.now }
  | .release _ | .exit | .exitStmt => s

/-- What holds of the times in every run. -/
structure TimesOk (d : Press.Driver) (s : Timed F) : Prop where
  kt : s.kt = firstKt ∨ s.kt = laterKt d
  interval : s.interval = s.kt ∨ s.interval = firstKt ∧ s.kt = laterKt d
  expires : s.expires = s.base + s.interval
  base_le : s.base ≤ s.now

/-- No time has passed since the one from which the pending expiry counts; or it was set with the
first interval, the callback has set another one since, and no more time has passed than the
difference. -/
def AtOnce (d : Press.Driver) (s : Timed F) : Prop :=
  s.now = s.base ∨ s.interval ≠ s.kt ∧ s.now - s.base ≤ firstKt - laterKt d

/-! ## What the steps do to the times -/

section Times

variable {d : Press.Driver} {s : Timed F} {rest : List Stmt} {secs nsecs : ℤ}

theorem laterKt_pos : 0 < laterKt d := by
  cases d <;> decide

theorem laterKt_lt : laterKt d < firstKt := by
  cases d <;> decide

theorem TimesOk.kt_pos (ok : TimesOk d s) : 0 < s.kt := by
  rcases ok.kt with h | h
  · rw [h]
    decide
  · rw [h]
    exact laterKt_pos

theorem TimesOk.init : TimesOk d (.init : Timed F) :=
  ⟨.inl rfl, .inl rfl, (Int.add_left_neg firstKt).symm, (by decide : -firstKt ≤ 0)⟩

theorem TimesOk.start (ok : TimesOk d s) : TimesOk d s.start :=
  ⟨ok.kt, .inl rfl, rfl, le_rfl⟩

theorem TimesOk.forwardNow (ok : TimesOk d s) : TimesOk d s.forwardNow := by
  unfold Timed.forwardNow
  split
  · exact ok
  · next h =>
    have hle : s.expires ≤ s.now := not_lt.1 fun hlt => h (.inr hlt)
    have hforward := Hrtimer.forward_le ok.kt_pos hle
    exact ⟨ok.kt, .inl rfl, by simp, by dsimp only; omega⟩

/-- The callback sets the interval of its driver. -/
theorem ktimeSet_of_suffix
    (h : .press (.setKt secs nsecs) :: rest <:+ hrtimerHanderInterrupt (.press d)) :
    Press.ktimeSet secs nsecs = laterKt d := by
  have hmem : Stmt.press (.setKt secs nsecs) ∈ hrtimerHanderInterrupt (.press d) :=
    h.subset List.mem_cons_self
  cases d with
  | interrupt2Poll | interrupt3Epoll | miniatureDriver =>
    simp [hrtimerHanderInterrupt, Press.hrtimerHanderInterrupt] at hmem
    rw [hmem.1, hmem.2]
    rfl

theorem TimesOk.setKt (ok : TimesOk d s) :
    TimesOk d { s with kt := laterKt d } := by
  refine ⟨.inr rfl, ?_, ok.expires, ok.base_le⟩
  rcases ok.interval with h | ⟨h, -⟩
  · rcases ok.kt with hkt | hkt
    · exact .inr ⟨h.trans hkt, rfl⟩
    · exact .inl (h.trans hkt)
  · exact .inr ⟨h, rfl⟩

theorem TimesOk.stmt {c : Stmt} (ok : TimesOk d s)
    (h : c :: rest <:+ hrtimerHanderInterrupt (.press d)) : TimesOk d (c.timed s) := by
  cases c with
  | killFasync => exact ok
  | press c =>
    cases c with
    | mdelay | toggleValue | setPress | wakeUp | restart => exact ok
    | setKt secs nsecs =>
      rw [Stmt.timed, ktimeSet_of_suffix h]
      exact ok.setKt
    | forwardNow => exact ok.forwardNow

/-- The open of an armed timer leaves its expiry, or moves it to an earlier time, exactly if it
comes at once. -/
theorem TimesOk.atOnce_iff (ok : TimesOk d s) : s.start.expires ≤ s.expires ↔ AtOnce d s := by
  have hbase := ok.base_le
  have hlt : laterKt d < firstKt := laterKt_lt
  show s.now + s.kt ≤ s.expires ↔ _
  rw [ok.expires, AtOnce]
  rcases ok.interval with h | ⟨hinterval, hkt⟩
  · -- the interval is still the one that the expiry was set with
    rw [h]
    constructor
    · intro hle
      exact .inl (by omega)
    · rintro (hnow | ⟨hne, -⟩)
      · rw [hnow]
      · exact absurd rfl hne
  · rw [hinterval, hkt]
    constructor
    · intro hle
      exact .inr ⟨hlt.ne', by omega⟩
    · rintro (hnow | ⟨-, hle⟩)
      · omega
      · omega

end Times

variable [DecidableEq F]

/-- A step of the driver `d`, or time passes. -/
def timedStep (d : Press.Driver) (s : Timed F) : TimedAct F → Option (Timed F)
  | .tick nsecs => some { s with now := s.now + nsecs }
  | .act a =>
    if s.due a then (step (.press d) s.state a).map fun state => { s.times a with state } else none

/-- The steps of the driver that a step of the timed one is. -/
def TimedAct.acts : TimedAct F → List (Act F)
  | .tick _ => []
  | .act a => [a]

/-- An open that finds the timer armed does not move the expiry to a later time. -/
def NotPostponed (d : Press.Driver) (_ : List (TimedAct F)) (s : Timed F) (a : TimedAct F) : Prop :=
  ∀ f, a = .act (.opens f) → s.state.timer.armed = true →
    ∀ t ∈ timedStep d s a, t.expires ≤ s.expires

/-- Every open that finds the timer armed comes at once. -/
def OpensAtOnce (d : Press.Driver) (_ : List (TimedAct F)) (s : Timed F) (a : TimedAct F) : Prop :=
  ∀ f, a = .act (.opens f) → s.state.timer.armed = true → AtOnce d s

variable {d : Press.Driver} {s t : Timed F} {a : TimedAct F} {run : List (TimedAct F)}

/-- **The time forgotten, a run is one of the driver.** -/
theorem timed_refines (h : exec (timedStep d) .init run = some s) :
    exec (step (.press d)) .init (run.flatMap TimedAct.acts) = some s.state := by
  have hsim : ∃ x, exec (step (.press d)) .init (run.flatMap TimedAct.acts) = some x ∧
      x = s.state := by
    refine exec_simulation (R := fun (s : Timed F) x => x = s.state) ?_ rfl h
    rintro s a t x rfl hstep
    cases a with
    | tick => cases hstep; exact ⟨_, rfl, rfl⟩
    | act a =>
      obtain ⟨-, hstep⟩ := Option.ite_none_right_eq_some.1 hstep
      obtain ⟨state, hstate, rfl⟩ := Option.map_eq_some_iff.1 hstep
      exact ⟨state, by simpa [TimedAct.acts] using hstate, rfl⟩
  obtain ⟨x, hx, rfl⟩ := hsim
  exact hx

/-- A step keeps the pending expiry at an interval of the driver behind a time that has passed. -/
theorem TimesOk.step (ok : TimesOk d s)
    (hsuffix : s.state.callback <:+ hrtimerHanderInterrupt (.press d))
    (h : timedStep d s a = some t) : TimesOk d t := by
  cases a with
  | tick nsecs =>
    cases h
    exact ⟨ok.kt, ok.interval, ok.expires, ok.base_le.trans (Int.le_add_of_nonneg_right (by simp))⟩
  | act a =>
    obtain ⟨-, h⟩ := Option.ite_none_right_eq_some.1 h
    obtain ⟨state, -, rfl⟩ := Option.map_eq_some_iff.1 h
    have htimes : TimesOk d (s.times a) := by
      cases a with
      | opens => exact ok.start
      | expire => exact ⟨ok.kt, ok.interval, ok.expires, ok.base_le⟩
      | release | exit | exitStmt => exact ok
      | stmt =>
        cases hcallback : s.state.callback with
        | nil => simpa [Timed.times, hcallback] using ok
        | cons c rest =>
          have hstmt := ok.stmt (hcallback ▸ hsuffix)
          simp only [Timed.times, hcallback]
          exact ⟨hstmt.kt, hstmt.interval, hstmt.expires, hstmt.base_le⟩
    exact ⟨htimes.kt, htimes.interval, htimes.expires, htimes.base_le⟩

theorem suffix_of_exec (h : exec (timedStep d) .init run = some s) :
    s.state.callback <:+ hrtimerHanderInterrupt (.press d) :=
  (reachable_callbackOk (timed_refines h)).suffix

/-- In every run the pending expiry is an interval of the driver behind a time that has passed. -/
theorem reachable_timesOk (h : exec (timedStep d) .init run = some s) : TimesOk d s := by
  refine exec_induction (P := fun _ s => TimesOk d s) .init ?_ h
  intro run s a t hrun ok hstep
  exact ok.step (suffix_of_exec hrun) hstep

theorem expires_of_opens {f : F} (h : timedStep d s (.act (.opens f)) = some t) :
    t.expires = s.start.expires := by
  have hmap : (step (.press d) s.state (.opens f)).map (fun state => { s.start with state }) =
      some t := h
  obtain ⟨state, -, rfl⟩ := Option.map_eq_some_iff.1 hmap
  rfl

/-- **When the opens do not postpone the expiry.** In every run of a driver, with any number of
clients that open the device at any times: no open that finds the timer armed moves the pending
expiry to a later time, if and only if each of them comes at once. -/
theorem not_postponed_iff {F : Type} [DecidableEq F] (d : Press.Driver) (run : List (TimedAct F))
    (s : Timed F) (h : exec (timedStep d) .init run = some s) :
    Meets (timedStep d) .init (NotPostponed d) run ↔
      Meets (timedStep d) .init (OpensAtOnce d) run := by
  refine meets_iff_meets (I := fun _ s => TimesOk d s) .init ?_ ?_ ?_ h
  · intro run s a t hrun ok _ hstep
    exact ok.step (reachable_callbackOk (timed_refines hrun)).suffix hstep
  · rintro run s a t - ok honce - f rfl harmed u hu
    rw [expires_of_opens (Option.mem_def.1 hu)]
    exact ok.atOnce_iff.2 (honce f rfl harmed)
  · rintro run s a t hrun hstep hnot f rfl harmed
    have hle := hnot f rfl harmed t hstep
    rw [expires_of_opens hstep] at hle
    exact (reachable_timesOk hrun).atOnce_iff.1 hle

instance : Decidable (AtOnce d s) := inferInstanceAs (Decidable (_ ∨ _))

instance [Fintype F] : Decidable (OpensAtOnce d run s a) :=
  inferInstanceAs (Decidable (∀ _, _ → _ → _))

/-- Two clients open the device in the same instant; a third one does while the first callback runs,
and a fourth one ten nanoseconds later, when the callback has made the interval so much shorter. -/
theorem not_postponed_at_once :
    Meets (timedStep .interrupt3Epoll) (Timed.init : Timed (Fin 4)) (NotPostponed .interrupt3Epoll)
      [.act (.opens 0), .act (.opens 1), .tick 1000000010, .act .expire, .act .stmt,
        .act (.opens 2), .act .stmt, .tick 10, .act (.opens 3)] := by
  obtain ⟨s, hs⟩ : ∃ s, exec (timedStep .interrupt3Epoll) (Timed.init : Timed (Fin 4))
      [.act (.opens 0), .act (.opens 1), .tick 1000000010, .act .expire, .act .stmt,
        .act (.opens 2), .act .stmt, .tick 10, .act (.opens 3)] = some s := ⟨_, rfl⟩
  exact (not_postponed_iff _ _ s hs).2 (by decide +kernel)

/-- In each driver a second client that opens the device a nanosecond after the first one postpones
the event that the first one waits for. -/
theorem postponed_second_open :
    ¬ ∃ d : Press.Driver, Meets (timedStep d) (Timed.init : Timed (Fin 2)) (NotPostponed d)
      [.act (.opens 0), .tick 1, .act (.opens 1)] := by
  rintro ⟨d, h⟩
  have hle := h [.act (.opens 0), .tick 1] (.act (.opens 1)) [] _ rfl rfl 1 rfl rfl _ rfl
  exact absurd hle (by decide)

/-! ## No event for ever -/

/-- A client opens the device, and each `g` nanoseconds another one does. -/
def opensEvery (g : ℕ) : ℕ → List (TimedAct ℕ)
  | 0 => [.act (.opens 0)]
  | n + 1 => opensEvery g n ++ [.tick g] ++ [.act (.opens (n + 1))]

/-- What holds after the open of the client `n`. -/
structure Suppressed (g n : ℕ) (s : Timed ℕ) : Prop where
  now : s.now = n * g
  kt : s.kt = firstKt
  expires : s.expires = s.now + firstKt
  exit : s.state.exit = none
  opened : ∀ f ∈ s.state.opened, f ≤ n

/-- The timer cannot expire now. -/
def CannotExpire (d : Press.Driver) (_ : List (TimedAct F)) (s : Timed F) : Prop :=
  timedStep d s (.act .expire) = none

theorem cannotExpire_of_lt (h : s.now < s.expires) : CannotExpire d run s := by
  simp [CannotExpire, timedStep, Timed.due, h]

/-- The open of the next client puts the expiry off again. -/
theorem Suppressed.opens {g n : ℕ} {s : Timed ℕ} (h : Suppressed g n s) :
    ∃ t, timedStep d { s with now := s.now + g } (.act (.opens (n + 1))) = some t ∧
      Suppressed g (n + 1) t := by
  have hnew : n + 1 ∉ s.state.opened := fun hmem => absurd (h.opened _ hmem) (by simp)
  have hstep : step (.press d) s.state (.opens (n + 1)) = some { s.state with
      timer := s.state.timer.start, opened := insert (n + 1) s.state.opened } :=
    if_pos ⟨h.exit, hnew⟩
  refine ⟨_, congrArg (Option.map _) hstep, ?_, h.kt, ?_, h.exit, fun f hf => ?_⟩
  · show s.now + g = _
    rw [h.now]
    push_cast
    rw [Int.add_mul, Int.one_mul]
  · show s.now + g + s.kt = _
    rw [h.kt]
    rfl
  · rcases Finset.mem_insert.1 hf with rfl | hf
    · exact le_rfl
    · exact (h.opened f hf).trans n.le_succ

/-- **Opens suppress the event for ever.** As long as clients open the device, each less than the
first interval after the one before, the timer never expires, however much time passes. -/
theorem expire_suppressed (d : Press.Driver) (g n : ℕ) (hg : (g : ℤ) < firstKt) :
    ∃ s, exec (timedStep d) .init (opensEvery g n) = some s ∧ Suppressed g n s ∧
      Throughout (timedStep d) .init (CannotExpire d) (opensEvery g n) := by
  have hpos : 0 < firstKt := by decide
  induction n with
  | zero =>
    have hinit : Throughout (timedStep d) .init (CannotExpire d) ([] : List (TimedAct ℕ)) :=
      throughout_nil.2 rfl
    refine ⟨_, rfl, ⟨(Int.zero_mul g).symm, rfl, rfl, rfl, fun f hf => ?_⟩,
      throughout_concat hinit ?_⟩
    · have hzero : f = 0 := by simpa [Timed.init, State.init] using hf
      exact hzero.le
    · rintro s ⟨⟩
      exact cannotExpire_of_lt (by decide)
  | succ n ih =>
    obtain ⟨s, hs, ok, hthroughout⟩ := ih
    obtain ⟨t, ht, okt⟩ := ok.opens (d := d)
    have htick : exec (timedStep d) .init (opensEvery g n ++ [.tick g]) =
        some { s with now := s.now + g } := exec_concat.2 ⟨s, hs, rfl⟩
    have hopens : exec (timedStep d) .init (opensEvery g (n + 1)) = some t :=
      exec_concat.2 ⟨_, htick, ht⟩
    refine ⟨t, hopens, okt, throughout_concat (throughout_concat hthroughout ?_) ?_⟩
    · intro u hu
      obtain rfl := Option.some.inj (htick.symm.trans hu)
      refine cannotExpire_of_lt ?_
      rw [ok.expires]
      exact Int.add_lt_add_left hg _
    · intro u hu
      obtain rfl := Option.some.inj (hopens.symm.trans hu)
      refine cannotExpire_of_lt ?_
      rw [okt.expires]
      exact Int.lt_add_of_pos_right _ hpos

end Starrysky.Interrupt
