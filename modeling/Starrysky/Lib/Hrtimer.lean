import Mathlib.Data.Int.Notation
import Mathlib.Data.Option.Basic

/-!
# High-resolution timers

What the kernel's `hrtimer` calls do to one timer: starting arms it, also while its callback runs;
an armed timer expires into its callback, which never runs beside itself; a callback that restarts
the timer leaves it armed; and a cancel waits until no callback runs, then disarms. A call that has
to wait is `none`. `forward` is what happens to the expiry of a timer that is forwarded.
-/

structure Hrtimer where
  armed : Bool
  running : Bool
  deriving DecidableEq

namespace Hrtimer

/-- After `hrtimer_init`. -/
def init : Hrtimer := ⟨false, false⟩

def start (t : Hrtimer) : Hrtimer := { t with armed := true }

def expire (t : Hrtimer) : Option Hrtimer :=
  if t.armed = true ∧ t.running = false then some ⟨false, true⟩ else none

/-- The callback returns `HRTIMER_RESTART`. -/
def restart (t : Hrtimer) : Option Hrtimer :=
  if t.running = true then some ⟨true, false⟩ else none

def cancel (t : Hrtimer) : Option Hrtimer :=
  if t.running = false then some ⟨false, false⟩ else none

/-- The timer will still call its function, or is calling it. -/
def Active (t : Hrtimer) : Prop := t.armed = true ∨ t.running = true

instance (t : Hrtimer) : Decidable t.Active := inferInstanceAs (Decidable (_ ∨ _))

variable {t u : Hrtimer}

theorem not_active_init : ¬ init.Active := by
  simp [init, Active]

@[simp] theorem active_start : t.start.Active := .inl rfl

/-- Only an active timer expires, and it stays active. -/
theorem active_of_expire (h : t.expire = some u) : t.Active ∧ u.Active := by
  obtain ⟨⟨harmed, -⟩, ⟨⟩⟩ := Option.ite_none_right_eq_some.1 h
  exact ⟨.inl harmed, .inr rfl⟩

theorem active_of_restart (h : t.restart = some u) : t.Active ∧ u.Active := by
  obtain ⟨hrunning, ⟨⟩⟩ := Option.ite_none_right_eq_some.1 h
  exact ⟨.inr hrunning, .inl rfl⟩

/-- A cancel returns when no callback runs, and stops the timer. -/
theorem cancel_eq_some : t.cancel = some u ↔ t.running = false ∧ u = init := by
  rw [cancel, Option.ite_none_right_eq_some, Option.some.injEq]
  exact and_congr_right fun _ => eq_comm

theorem not_active_of_cancel (h : t.cancel = some u) : ¬ u.Active := by
  rw [(cancel_eq_some.1 h).2]
  exact not_active_init

/-! ## The expiry -/

/-- The expiry to which `hrtimer_forward_now` moves the one of a timer that is not enqueued and has
expired: whole intervals on, until it lies ahead. -/
def forward (now interval expires : ℤ) : ℤ :=
  if now < expires then expires else expires + ((now - expires) / interval + 1) * interval

variable {now interval expires : ℤ}

theorem forward_le (h : 0 < interval) (hle : expires ≤ now) :
    forward now interval expires ≤ now + interval := by
  rw [forward, if_neg (by omega), Int.add_mul, Int.one_mul]
  have hdiv := Int.ediv_mul_le (now - expires) (Int.ne_of_gt h)
  omega

end Hrtimer
