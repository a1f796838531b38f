import Starrysky.Demo.Install
import Starrysky.Lib.Cost

/-!
# The period of the timer demos

The callback of the demos asks for an expiry each millisecond, and waits for a second itself. So it
is called once in a second, not once in a millisecond: from one call to the next at least a second
passes, and no more than a millisecond beyond it but for what the kernel is late (`period`).
`untilExpire` is the time to the next call if the kernel is never late.
-/

namespace Starrysky.Demo

open Transition Press

/-- The time from which the kernel can take the next step of the timer or the callback. -/
def State.dueAt (s : State) : ℤ :=
  match s.callback with
  | [] => s.expires
  | .mdelay msecs :: _ => s.stmtAt + msecs * 1000000
  | _ :: _ => s.now

/-- The part of the time that a step lets pass in which the next step of the timer or the callback
is due. -/
def State.late (s : State) (a : Act) : ℤ :=
  if s.timer.Active then max 0 (s.now + a.nsecs - max s.now s.dueAt) else 0

/-- The time of a run that the kernel is late. -/
def lateness (d : Program) : State → List Act → ℤ := cost (step d) State.late

/-- The time to the next call of the callback, if the kernel is not late. -/
def State.untilExpire (s : State) : ℤ :=
  match s.callback with
  | .mdelay msecs :: _ => max 0 (s.stmtAt + msecs * 1000000 - s.now) + 1000000
  | .setKt .. :: _ | .forwardNow :: _ => 1000000
  | _ => max 0 (s.expires - s.now)

/-- How often a run calls the callback. -/
def calls (run : List Act) : ℕ := run.count .expire

/-- Where the callback that was called at the time `b` stands; behind it the timer is armed again.
-/
inductive Phase (b : ℤ) (s : State) : List Stmt → Prop
  | delaying : s.stmtAt = b → b ≤ s.now → s.expires ≤ s.now → s.timer = ⟨false, true⟩ →
    Phase b s [.mdelay 1000, .setKt 0 1000000, .forwardNow, .restart]
  | delayed : b + 1000000000 ≤ s.now → s.expires ≤ s.now → s.timer = ⟨false, true⟩ →
    Phase b s [.setKt 0 1000000, .forwardNow, .restart]
  | set : b + 1000000000 ≤ s.now → s.expires ≤ s.now → s.timer = ⟨false, true⟩ →
    s.kt = 1000000 → Phase b s [.forwardNow, .restart]
  | forwarded : b + 1000000000 ≤ s.now → s.timer = ⟨false, true⟩ → Phase b s [.restart]
  | armed : b + 1000000000 ≤ s.now → s.timer = ⟨true, false⟩ → Phase b s []

/-- What holds from the call of the callback at the time `b` to the next. -/
structure PeriodOk (d : Program) (b : ℤ) (s : State) : Prop where
  init : s.init = []
  function : s.function = some (hrtimerHander d)
  phase : Phase b s s.callback

variable {d : Program} {b : ℤ} {s t : State} {a : Act} {run : List Act} {l : List Stmt}

/-! ## A step within the period -/

theorem late_of_active (h : s.timer.Active) :
    s.late a = max 0 (s.now + a.nsecs - max s.now s.dueAt) := if_pos h

theorem late_nonneg : 0 ≤ s.late a := by
  unfold State.late
  split <;> omega

theorem Phase.active (h : Phase b s l) : s.timer.Active := by
  cases h with
  | delaying _ _ _ h | delayed _ _ h | set _ _ h | forwarded _ h => exact .inr (by rw [h])
  | armed _ h => exact .inl (by rw [h])

theorem Phase.tick (h : Phase b s l) (nsecs : ℕ) : Phase b { s with now := s.now + nsecs } l := by
  have hnow : s.now ≤ s.now + nsecs := Int.le_add_of_nonneg_right (by simp)
  cases h with
  | delaying hstmtAt hb hle htimer =>
    exact .delaying hstmtAt (Int.le_trans hb hnow) (Int.le_trans hle hnow) htimer
  | delayed hb hle htimer => exact .delayed (Int.le_trans hb hnow) (Int.le_trans hle hnow) htimer
  | set hb hle htimer hkt => exact .set (Int.le_trans hb hnow) (Int.le_trans hle hnow) htimer hkt
  | forwarded hb htimer => exact .forwarded (Int.le_trans hb hnow) htimer
  | armed hb htimer => exact .armed (Int.le_trans hb hnow) htimer

/-- Time that passes is paid for by the time to the next call, but for what the kernel is late. -/
theorem untilExpire_tick (h : Phase b s s.callback) (nsecs : ℕ) :
    s.now + nsecs + ({ s with now := s.now + nsecs } : State).untilExpire ≤
      s.now + s.untilExpire + s.late (.tick nsecs) := by
  rw [late_of_active h.active]
  unfold State.untilExpire State.dueAt
  dsimp only [Act.nsecs]
  generalize s.callback = l at h
  cases h with
  | delaying | delayed | set | forwarded | armed => dsimp only; omega

/-- A statement of the callback comes in time for the next call. -/
theorem PeriodOk.stmt {c : Stmt} {rest : List Stmt} {u : State} (ok : PeriodOk d b s)
    (hcallback : s.callback = c :: rest) (h : execStmt s c = some u) :
    PeriodOk d b { u with callback := rest, stmtAt := s.now } ∧ u.now = s.now ∧
      ({ u with callback := rest, stmtAt := s.now } : State).untilExpire ≤ s.untilExpire := by
  obtain ⟨hinit, hfunction, hphase⟩ := ok
  rw [hcallback] at hphase
  unfold State.untilExpire
  rw [hcallback]
  cases hphase with
  | delaying hstmtAt hb hle htimer =>
    obtain ⟨hdue, ⟨⟩⟩ := Option.ite_none_right_eq_some.1 h
    have hdelayed : b + 1000000000 ≤ s.now := by omega
    refine ⟨⟨hinit, hfunction, .delayed hdelayed hle htimer⟩, rfl, ?_⟩
    dsimp only
    omega
  | delayed hb hle htimer =>
    cases h
    exact ⟨⟨hinit, hfunction, .set hb hle htimer rfl⟩, rfl, Int.le_refl _⟩
  | set hb hle htimer hkt =>
    rw [execStmt, if_neg (by simp [htimer])] at h
    cases h
    have hforward := Hrtimer.forward_le (by omega : 0 < s.kt) hle
    refine ⟨⟨hinit, hfunction, .forwarded hb htimer⟩, rfl, ?_⟩
    dsimp only
    omega
  | forwarded hb htimer =>
    obtain ⟨timer, hrestart, rfl⟩ := Option.map_eq_some_iff.1 h
    rw [htimer] at hrestart
    cases hrestart
    exact ⟨⟨hinit, hfunction, .armed hb rfl⟩, rfl, Int.le_refl _⟩

/-- A call of the callback begins a period. -/
theorem PeriodOk.of_expire {timer : Hrtimer} (hinit : s.init = [])
    (hfunction : s.function = some (hrtimerHander d)) (hle : s.expires ≤ s.now)
    (htimer : s.timer.expire = some timer) :
    PeriodOk d s.now { s with timer, callback := hrtimerHander d, stmtAt := s.now } ∧
      ({ s with timer, callback := hrtimerHander d, stmtAt := s.now } : State).untilExpire =
        1001000000 := by
  obtain ⟨-, ⟨⟩⟩ := Option.ite_none_right_eq_some.1 htimer
  refine ⟨⟨hinit, hfunction, ?_⟩, ?_⟩
  · cases d <;> exact .delaying rfl (Int.le_refl _) hle rfl
  · unfold State.untilExpire
    cases d <;> (dsimp only [hrtimerHander]; omega)

/-- Only a timer that the callback has armed again expires. -/
theorem Phase.of_expire {timer : Hrtimer} (h : Phase b s l) (htimer : s.timer.expire = some timer) :
    b + 1000000000 ≤ s.now := by
  obtain ⟨⟨harmed, -⟩, -⟩ := Option.ite_none_right_eq_some.1 htimer
  cases h with
  | delaying _ _ _ h | delayed _ _ h | set _ _ h | forwarded _ h => simp [h] at harmed
  | armed hb => exact hb

theorem untilExpire_nonneg : 0 ≤ s.untilExpire := by
  unfold State.untilExpire
  split <;> omega

/-- A step within a period keeps to its phase, and a call of the callback begins the next period, a
second later at least and as much later at most as a period and the lateness of the kernel allow. -/
theorem PeriodOk.step (ok : PeriodOk d b s) (ha : a ≠ .exit) (h : step d s a = some t) :
    ∃ b', PeriodOk d b' t ∧ b + calls [a] * 1000000000 ≤ b' ∧
      t.now + t.untilExpire ≤ s.now + s.untilExpire + calls [a] * 1001000000 + s.late a := by
  have hlate : 0 ≤ s.late a := late_nonneg
  have huntil : 0 ≤ s.untilExpire := untilExpire_nonneg
  cases (steps_of_step h).2 with
  | @tick nsecs =>
    refine ⟨b, ⟨ok.init, ok.function, ok.phase.tick nsecs⟩, by simp [calls], ?_⟩
    simpa [calls] using untilExpire_tick ok.phase nsecs
  | init hinit => simp [ok.init] at hinit
  | @expire timer body hle htimer hfunction =>
    obtain rfl : body = hrtimerHander d := Option.some.inj (hfunction.symm.trans ok.function)
    obtain ⟨hok, hperiod⟩ := PeriodOk.of_expire ok.init hfunction hle htimer
    refine ⟨s.now, hok, ?_, ?_⟩
    · simpa [calls] using ok.phase.of_expire htimer
    · rw [hperiod]
      simp only [calls, List.count_singleton_self]
      omega
  | oops _ _ hfunction => simp [ok.function] at hfunction
  | stmt hcallback hstmt =>
    obtain ⟨hok, hnow, hle⟩ := ok.stmt hcallback hstmt
    refine ⟨b, hok, by simp [calls], ?_⟩
    simp only [calls, List.count_singleton, reduceCtorEq, beq_iff_eq, if_false] at hle ⊢
    omega
  | exit => exact absurd rfl ha

theorem lateness_concat (h : exec (step d) s run = some t) (ha : step d t a ≠ none) :
    lateness d s (run ++ [a]) = lateness d s run + t.late a := by
  obtain ⟨u, hu⟩ := Option.ne_none_iff_exists'.1 ha
  rw [lateness, cost_append h, cost_cons hu, cost_nil, Int.add_zero]

theorem calls_concat : calls (run ++ [a]) = calls run + calls [a] := List.count_append

/-- **Run lemma.** From a call of the callback on. -/
theorem PeriodOk.exec (ok : PeriodOk d s.now s) (hperiod : s.untilExpire = 1001000000)
    (hexit : .exit ∉ run) (h : exec (Demo.step d) s run = some t) :
    ∃ b, PeriodOk d b t ∧ s.now + calls run * 1000000000 ≤ b ∧
      t.now + t.untilExpire ≤ s.now + (calls run + 1) * 1001000000 + lateness d s run := by
  have hmeets : Meets (Demo.step d) s (fun _ _ a => a ≠ .exit) run := by
    rintro pre a post u rfl -
    exact fun ha => hexit (by simp [ha])
  refine hmeets.induction (P := fun run t => ∃ b, PeriodOk d b t ∧
    s.now + calls run * 1000000000 ≤ b ∧
    t.now + t.untilExpire ≤ s.now + (calls run + 1) * 1001000000 + lateness d s run) ?_ ?_ h
  · exact ⟨s.now, ok, by simp [calls], by simp [calls, lateness, hperiod]⟩
  · rintro run u a v hrun ⟨b, hok, hb, hle⟩ ha hstep
    obtain ⟨b', hok', hb', hle'⟩ := hok.step ha hstep
    refine ⟨b', hok', ?_, ?_⟩
    · rw [calls_concat]
      omega
    · rw [calls_concat, lateness_concat hrun (by simp [hstep])]
      omega

theorem Phase.le_now (h : Phase b s l) : b ≤ s.now := by
  cases h with
  | delaying _ hb => exact hb
  | delayed hb | set hb | forwarded hb | armed hb => omega

/-- **Once in a second.** In every run of either program, after a call of the callback that is not
one of NULL: a part of the run that goes on from there, without `hrtimer_demo_exit`, and in which
the callback is called `n` times takes at least `n` seconds and at most `n + 1` times a second and a
millisecond, but for the time that the kernel is late. -/
theorem period (d : Program) (run seg : List Act) (s t : State)
    (hs : exec (step d) .start (run ++ [.expire]) = some s) (hoops : s.oops = false)
    (ht : exec (step d) s seg = some t) (hexit : .exit ∉ seg) :
    calls seg * 1000000000 ≤ t.now - s.now ∧
      t.now - s.now ≤ (calls seg + 1) * 1001000000 + lateness d s seg := by
  obtain ⟨u, hu, hstep⟩ := exec_concat.1 hs
  have hinside := reachable_inside hu
  cases (steps_of_step hstep).2 with
  | @expire timer body hle htimer hfunction =>
    have hinit : u.init = [] := hinside.init_eq_nil (.inl (by simp [hfunction]))
    obtain rfl : body = hrtimerHander d :=
      Option.some.inj (hfunction.symm.trans (hinit ▸ hinside : Inside d run u []).set)
    obtain ⟨hok, hperiod⟩ := PeriodOk.of_expire hinit hfunction hle htimer
    obtain ⟨b, hokt, hb, hlet⟩ := hok.exec hperiod hexit ht
    have hnow := hokt.phase.le_now
    have huntil : 0 ≤ t.untilExpire := untilExpire_nonneg
    constructor <;> omega
  | oops => simp at hoops

/-- Nothing is late: a second and a millisecond from a call to the next. -/
theorem period_punctual : ∃ (seg : List Act) (s t : State),
    exec (step .hrtimer1Demo) .start
        ([.init, .init, .init, .init, .tick 1000000010] ++ [.expire]) = some s ∧
      exec (step .hrtimer1Demo) s seg = some t ∧ calls seg = 1 ∧ t.now - s.now = 1001000000 ∧
      lateness .hrtimer1Demo s seg = 0 ∧ calls seg * 1000000000 ≤ t.now - s.now ∧
      t.now - s.now ≤ (calls seg + 1) * 1001000000 + lateness .hrtimer1Demo s seg :=
  ⟨[.tick 1000000000, .stmt, .stmt, .stmt, .stmt, .tick 1000000, .expire], _, _, rfl, rfl, rfl, rfl,
    rfl, period .hrtimer1Demo [.init, .init, .init, .init, .tick 1000000010] _ _ _ rfl rfl rfl
      (by decide)⟩

end Starrysky.Demo
