import Mathlib.Data.Int.Notation
import Mathlib.Data.List.Infix
import Mathlib.Tactic.TypeStar

/-!
# The device of the timer drivers

`interrupt-2-poll`, `interrupt-3-epoll` and `miniature_driver` (one bound device) keep the same few
bytes: a `value` that the timer callback toggles, the flag `ev_press` that announces a new value,
and the interval `kt` of the timer. This module has these bytes, the statements of the three
callbacks in their order, the functions that readers and pollers apply to the bytes, and what a
whole callback does (`callback_eq`). `printk` and the hardware's own time are left out.
-/

namespace Starrysky.Press

/-- The drivers with the flag `ev_press` and a wait queue. -/
inductive Driver where
  | interrupt2Poll
  | interrupt3Epoll
  | miniatureDriver
  deriving DecidableEq

/-- `ktime_set`: seconds and nanoseconds as nanoseconds. -/
def ktimeSet (secs nsecs : ℤ) : ℤ := secs * 1000000000 + nsecs

/-- What the callback, the readers and the pollers share. -/
structure Device where
  value : Int8
  evPress : UInt8
  kt : ℤ
  deriving DecidableEq

/-- The device after `hello_init`, or after `hello_probe` in `miniature_driver`. -/
def Device.init : Driver → Device
  | .interrupt2Poll | .interrupt3Epoll => { value := 0, evPress := 0, kt := ktimeSet 1 10 }
  | .miniatureDriver => { value := 19, evPress := 0, kt := ktimeSet 1 10 }

/-- The statements of the callbacks. -/
inductive Stmt where
  /-- `mdelay(msecs)` -/
  | mdelay (msecs : ℕ)
  /-- `value = value ? 0 : 1` -/
  | toggleValue
  /-- `kt = ktime_set(secs, nsecs)` -/
  | setKt (secs nsecs : ℤ)
  /-- `hrtimer_forward_now(timer, kt)` -/
  | forwardNow
  /-- `ev_press = 1` -/
  | setPress
  /-- `wake_up_interruptible(&key_waitq)` -/
  | wakeUp
  /-- `return HRTIMER_RESTART` -/
  | restart
  deriving DecidableEq

/-- The statements of `hrtimer_hander_interrupt` in each driver. -/
def hrtimerHanderInterrupt : Driver → List Stmt
  | .interrupt2Poll =>
    [.mdelay 1000, .setKt 0 1000000, .forwardNow, .toggleValue, .setPress, .wakeUp, .restart]
  | .interrupt3Epoll | .miniatureDriver =>
    [.toggleValue, .setKt 1 0, .forwardNow, .setPress, .wakeUp, .restart]

/-- What a statement does to the bytes of the device. The others act on the timer or on the wait
queue. -/
def Stmt.exec : Stmt → Device → Device
  | .toggleValue, dev => { dev with value := if dev.value ≠ 0 then 0 else 1 }
  | .setKt secs nsecs, dev => { dev with kt := ktimeSet secs nsecs }
  | .setPress, dev => { dev with evPress := 1 }
  | .mdelay _, dev | .forwardNow, dev | .wakeUp, dev | .restart, dev => dev

/-- A whole callback. -/
def callback (d : Driver) (dev : Device) : Device :=
  (hrtimerHanderInterrupt d).foldl (fun dev c => c.exec dev) dev

/-- The condition of `wait_event_interruptible(key_waitq, ev_press)`. -/
def Device.Pressed (dev : Device) : Prop := dev.evPress ≠ 0

instance (dev : Device) : Decidable dev.Pressed := inferInstanceAs (Decidable (_ ≠ _))

def POLLIN : UInt32 := 0x0001
def POLLRDNORM : UInt32 := 0x0040

/-- The mask that `key_poll` returns, `event_poll` in `miniature_driver`. -/
def keyPoll (dev : Device) : UInt32 :=
  let mask := 0
  if dev.evPress = 1 then mask ||| (POLLIN ||| POLLRDNORM) else mask

/-- `ev_press = 0`, the last statement of `dmisc_read`. -/
def Device.clearPress (dev : Device) : Device := { dev with evPress := 0 }

/-! ## What the statements do -/

variable {d : Driver} {dev : Device} {c : Stmt} {rest : List Stmt}

@[simp] theorem clearPress_evPress : dev.clearPress.evPress = 0 := rfl

@[simp] theorem clearPress_value : dev.clearPress.value = dev.value := rfl

theorem init_not_pressed : ¬ (Device.init d).Pressed := by
  cases d <;> simp [Device.init, Device.Pressed]

theorem clearPress_not_pressed : ¬ dev.clearPress.Pressed := by
  simp [Device.Pressed]

/-- Only `ev_press = 1` writes the flag. -/
theorem exec_evPress (h : c ≠ .setPress) : (c.exec dev).evPress = dev.evPress := by
  cases c with
  | setPress => exact absurd rfl h
  | mdelay | toggleValue | setKt | forwardNow | wakeUp | restart => rfl

/-- No statement takes the flag down. -/
theorem exec_pressed (h : dev.Pressed) : (c.exec dev).Pressed := by
  by_cases hc : c = .setPress
  · simp [hc, Stmt.exec, Device.Pressed]
  · rwa [Device.Pressed, exec_evPress hc]

/-- A whole callback toggles the value, sets the flag and sets the interval of its driver. -/
theorem callback_eq : callback d dev =
    { value := if dev.value ≠ 0 then 0 else 1
      evPress := 1
      kt := match d with
        | .interrupt2Poll => 1000000
        | .interrupt3Epoll | .miniatureDriver => 1000000000 } := by
  cases d with
  | interrupt2Poll | interrupt3Epoll | miniatureDriver => rfl

theorem callback_pressed : (callback d dev).Pressed := by
  simp [callback_eq, Device.Pressed]

/-- The flag is a truth value: what the callback, the readers and the pollers store is 0 or 1. -/
theorem exec_evPress_le (h : dev.evPress = 0 ∨ dev.evPress = 1) :
    (c.exec dev).evPress = 0 ∨ (c.exec dev).evPress = 1 := by
  by_cases hc : c = .setPress
  · exact .inr (by simp [hc, Stmt.exec])
  · rwa [exec_evPress hc]

/-- A truth value announces itself to a reader and to a poller alike. -/
theorem keyPoll_ne_zero_iff (h : dev.evPress = 0 ∨ dev.evPress = 1) :
    keyPoll dev ≠ 0 ↔ dev.Pressed := by
  rcases h with h | h <;> simp [keyPoll, Device.Pressed, POLLIN, POLLRDNORM, h]

/-! ## The order of the statements -/

/-- Each callback sets the flag once, after the toggle and before the wake-up. -/
theorem after_setPress (h : .setPress :: rest <:+ hrtimerHanderInterrupt d) :
    .wakeUp ∈ rest ∧ .setPress ∉ rest ∧ .toggleValue ∉ rest := by
  rw [← List.mem_tails] at h
  cases d with
  | interrupt2Poll | interrupt3Epoll | miniatureDriver =>
    obtain rfl : rest = [.wakeUp, .restart] := by
      simpa [hrtimerHanderInterrupt] using h
    decide

end Starrysky.Press
