import Starrysky.Press.Flag
import Mathlib.Data.Finset.Card
import Mathlib.Data.Fintype.Basic

/-!
# Events and the reads that consume them

Any number of processes read, and callbacks are not interrupted. The flag is one for all readers,
and testing it and clearing it are separate statements, so two readers can pass the wait on one
event. `one_pass_iff` says when they do: when one passes while another that passed on the same event
has yet to clear the flag. `copies_le_callbacks` is the count that follows when that never happens:
there are no more reads that have copied a value than there are callbacks.
-/

namespace Starrysky.Press

open Transition

variable {P : Type} {run : List (Whole P)} {a : Whole P}

/-- Whether an action is the step `r` of some reader. -/
def Whole.isRead (r : ReadStep) : Whole P → Bool
  | .callback => false
  | .read _ r' => r = r'

/-- The number of reads that have passed the wait. -/
def passes (run : List (Whole P)) : ℕ := run.countP (Whole.isRead .pass)

/-- The number of reads that have copied a value. -/
def copies (run : List (Whole P)) : ℕ := run.countP (Whole.isRead .copy)

@[simp] theorem passes_concat : passes (run ++ [a]) = passes run + (a.isRead .pass).toNat := by
  cases h : a.isRead .pass <;> simp [passes, h]

@[simp] theorem copies_concat : copies (run ++ [a]) = copies run + (a.isRead .copy).toNat := by
  cases h : a.isRead .copy <;> simp [copies, h]

@[simp] theorem isRead_callback {r : ReadStep} : (.callback : Whole P).isRead r = false := rfl

@[simp] theorem isRead_read {r r' : ReadStep} : (Whole.read p r').isRead r = decide (r = r') := rfl

theorem passes_eq_zero_iff : passes run = 0 ↔ ∀ q, .read q .pass ∉ run := by
  rw [passes, List.countP_eq_zero]
  constructor
  · intro h q hq
    exact h _ hq rfl
  · intro h a ha
    cases a with
    | callback => simp
    | read q r =>
      cases r with
      | pass => exact absurd ha (h q)
      | copy | clear => simp

variable [DecidableEq P] {d : Driver} {s t : State P} {p q : P}

/-- The number of callbacks that have run. -/
def callbacks (run : List (Whole P)) : ℕ := run.count .callback

/-- No reader passes the wait while another that has passed since the latest callback is still in
`dmisc_read`. -/
def NoReaderInside (run : List (Whole P)) (s : State P) (a : Whole P) : Prop :=
  ∀ p q, a = .read p .pass → .read q .pass ∈ since .callback run → s.pc q = .idle

instance [Fintype P] (run : List (Whole P)) (s : State P) (a : Whole P) :
    Decidable (NoReaderInside run s a) :=
  inferInstanceAs (Decidable (∀ _ _, _ → _ → _))

/-! ## One event -/

/-- While the flag is up, a reader that has passed since the latest callback has not cleared it. -/
theorem inside_of_pressed (h : exec (wholeStep d) (State.init d) run = some s)
    (hev : s.dev.Pressed) (hq : .read q .pass ∈ since .callback run) : s.pc q ≠ .idle := by
  refine exec_induction (P := fun run s => s.dev.Pressed → ∀ q,
    .read q .pass ∈ since .callback run → s.pc q ≠ .idle) ?_ ?_ h hev q hq
  · intro hev
    exact absurd hev init_not_pressed
  · intro run s a t _ ih hstep hev q hq
    cases wholeSteps_of_wholeStep hstep with
    | callback => simp at hq
    | @read p r _ hr =>
      rw [since_concat_of_ne (by simp), List.mem_append, List.mem_singleton] at hq
      cases hr with
      | pass hidle =>
        by_cases hqp : q = p
        · simp [hqp]
        · simpa [hqp] using ih hev q (by simpa [hqp] using hq)
      | copy hpc =>
        by_cases hqp : q = p
        · simp [hqp]
        · simpa [hqp] using ih hev q (by simpa using hq)
      | clear => exact absurd hev clearPress_not_pressed

/-- Under the condition, the first to pass the wait after a callback is the only one. -/
theorem no_pass_since (h : exec (wholeStep d) (State.init d) run = some s) (hev : s.dev.Pressed)
    (hinside : NoReaderInside run s (.read p .pass)) : passes (since .callback run) = 0 := by
  rw [passes_eq_zero_iff]
  intro q hq
  exact inside_of_pressed h hev hq (hinside p q rfl hq)

/-- **An event is passed at most once exactly when no reader passes with another still inside.** -/
theorem one_pass_iff (h : exec (wholeStep d) (State.init d) run = some s) :
    Throughout (wholeStep d) (State.init d) (fun run _ => passes (since .callback run) ≤ 1) run ↔
      Meets (wholeStep d) (State.init d) NoReaderInside run := by
  refine throughout_iff_meets ?_ ?_ ?_ h
  · simp [passes]
  · intro run s a t hrun ih hinside hstep
    cases wholeSteps_of_wholeStep hstep with
    | callback => simp [passes]
    | read hr =>
      rw [since_concat_of_ne (by simp), passes_concat]
      cases hr with
      | pass _ hev => simp [no_pass_since hrun hev hinside]
      | copy | clear => simpa using ih
  · rintro run s a t hrun hstep hone p q rfl hq
    rw [since_concat_of_ne (by simp), passes_concat] at hone
    have hnone : passes (since .callback run) = 0 := by simpa using hone
    exact absurd hq (passes_eq_zero_iff.1 hnone q)

/-! ## All events -/

/-- The reads that have passed are those that have copied and the ones between the two steps. -/
theorem copies_add_passed (h : exec (wholeStep d) (State.init d) run = some s) :
    ∃ F : Finset P, (∀ q, q ∈ F ↔ s.pc q = .passed) ∧ copies run + F.card = passes run := by
  refine exec_induction (P := fun run s => ∃ F : Finset P,
    (∀ q, q ∈ F ↔ s.pc q = .passed) ∧ copies run + F.card = passes run) ?_ ?_ h
  · exact ⟨∅, by simp [State.init], rfl⟩
  · rintro run s a t - ⟨F, hF, hcard⟩ hstep
    cases wholeSteps_of_wholeStep hstep with
    | callback => exact ⟨F, hF, by simpa using hcard⟩
    | @read p r _ hr =>
      cases hr with
      | pass hidle =>
        have hp : p ∉ F := by simp [hF, hidle]
        refine ⟨insert p F, fun q => ?_, ?_⟩
        · by_cases hqp : q = p <;> simp [hqp, hF]
        · simp [Finset.card_insert_of_notMem hp, ← hcard, Nat.add_assoc]
      | copy hpc =>
        have hp : p ∈ F := (hF p).2 hpc
        refine ⟨F.erase p, fun q => ?_, ?_⟩
        · by_cases hqp : q = p <;> simp [hqp, hF]
        · have herase := Finset.card_erase_add_one hp
          simp
          omega
      | clear hpc =>
        refine ⟨F, fun q => ?_, by simpa using hcard⟩
        by_cases hqp : q = p
        · simp [hqp, hF, hpc]
        · simp [hqp, hF]

theorem copies_le_passes (h : exec (wholeStep d) (State.init d) run = some s) :
    copies run ≤ passes run := by
  obtain ⟨F, -, hcard⟩ := copies_add_passed h
  omega

/-- While nobody has passed on the latest event, fewer have passed than there are callbacks. -/
theorem passes_le_callbacks (h : exec (wholeStep d) (State.init d) run = some s)
    (hinside : Meets (wholeStep d) (State.init d) NoReaderInside run) :
    passes run ≤ callbacks run := by
  refine (hinside.induction (P := fun run s => passes run ≤ callbacks run ∧
    (s.dev.Pressed → passes (since .callback run) = 0 → passes run < callbacks run)) ?_ ?_ h).1
  · exact ⟨le_rfl, fun hev => absurd hev init_not_pressed⟩
  · rintro run s a t hrun ⟨hle, hlt⟩ hinside hstep
    cases wholeSteps_of_wholeStep hstep with
    | callback =>
      have : callbacks (run ++ [.callback]) = callbacks run + 1 := by simp [callbacks]
      simp [this]
      omega
    | @read p r _ hr =>
      have hcb : callbacks (run ++ [.read p r]) = callbacks run := by simp [callbacks]
      rw [hcb, since_concat_of_ne (by simp), passes_concat, passes_concat]
      cases hr with
      | pass _ hev =>
        have := hlt hev (no_pass_since hrun hev hinside)
        exact ⟨this, by simp⟩
      | copy => exact ⟨hle, hlt⟩
      | clear => exact ⟨hle, fun hev => absurd hev clearPress_not_pressed⟩

/-- **No event is consumed twice** in a run in which no reader passes the wait with another that
passed on the same event still inside: in every state it goes through, no more reads have copied a
value than callbacks have run. -/
theorem copies_le_callbacks {P : Type} [DecidableEq P] (d : Driver) (run : List (Whole P))
    (h : Meets (wholeStep d) (State.init d) NoReaderInside run) :
    Throughout (wholeStep d) (State.init d) (fun run _ => copies run ≤ callbacks run) run := by
  rintro pre post s rfl hs
  exact (copies_le_passes hs).trans (passes_le_callbacks hs h.left)

theorem copies_le_callbacks_two_readers :
    Throughout (wholeStep .interrupt2Poll) (State.init .interrupt2Poll)
      (fun run _ => copies run ≤ callbacks run)
      [.callback, .read (0 : Fin 2) .pass, .read 0 .copy, .callback, .read 1 .pass, .read 1 .copy,
        .read 0 .clear, .read 1 .clear] :=
  copies_le_callbacks _ _ (by decide +kernel)

/-- Two readers pass the wait on one event, and both copy its value. -/
def sharedRun : List (Whole (Fin 2)) :=
  [.callback, .read 0 .pass, .read 1 .pass, .read 0 .copy, .read 1 .copy]

/-- They do so in each of the drivers. -/
theorem one_event_two_copies :
    ¬ Throughout (wholeStep .interrupt2Poll) (State.init .interrupt2Poll)
      (fun run _ => copies run ≤ callbacks run) sharedRun ∧
    ¬ Throughout (wholeStep .interrupt3Epoll) (State.init .interrupt3Epoll)
      (fun run _ => copies run ≤ callbacks run) sharedRun ∧
    ¬ Throughout (wholeStep .miniatureDriver) (State.init .miniatureDriver)
      (fun run _ => copies run ≤ callbacks run) sharedRun := by
  decide +kernel

end Starrysky.Press
