import Mathlib.Data.List.TakeWhile
import Mathlib.Data.UInt

/-!
# Strings of C

A string ends at its first byte 0, the NUL. `untilNul` is what a function such as `printf` takes a
buffer for, and `strncpy` the bytes that the function of this name stores: it stops at its bound,
with or without a NUL. `untilNul_strncpy` says what is found in a buffer that is one byte longer
than the bound.
-/

/-- The bytes of a string before its NUL. -/
structure CString where
  bytes : List UInt8
  zero_notMem : 0 ∉ bytes

namespace CString

variable {bs rest : List UInt8} {n : ℕ} {last : UInt8}

/-- The string that a buffer holds, if there is a NUL in it. -/
def untilNul (buffer : List UInt8) : Option (List UInt8) :=
  if 0 ∈ buffer then some (buffer.takeWhile (· ≠ 0)) else none

theorem untilNul_eq_none : untilNul bs = none ↔ 0 ∉ bs := by
  simp [untilNul]

/-- Bytes other than 0 are a part of the string. -/
theorem untilNul_append (h : 0 ∉ bs) : untilNul (bs ++ rest) = (untilNul rest).map (bs ++ ·) := by
  have htake : (bs ++ rest).takeWhile (· ≠ 0) = bs ++ rest.takeWhile (· ≠ 0) := by
    refine List.takeWhile_append_of_pos fun b hb => ?_
    have hne : b ≠ 0 := fun hzero => h (hzero ▸ hb)
    simpa using hne
  by_cases hrest : 0 ∈ rest
  · rw [untilNul, untilNul, if_pos (List.mem_append_right _ hrest), if_pos hrest, htake]
    rfl
  · simp [untilNul, hrest, h]

/-- What lies behind a NUL is no part of the string. -/
theorem untilNul_append_of_mem (h : 0 ∈ bs) : untilNul (bs ++ rest) = untilNul bs := by
  have htake : (bs ++ rest).takeWhile (· ≠ 0) = bs.takeWhile (· ≠ 0) := by
    rw [List.takeWhile_append, if_neg]
    intro hlength
    have hself := (List.takeWhile_sublist _).eq_of_length hlength
    simpa using List.takeWhile_eq_self_iff.1 hself 0 h
  rw [untilNul, untilNul, if_pos h, if_pos (List.mem_append_left _ h), htake]

/-- The string ends at the NUL. -/
theorem untilNul_cons_zero : untilNul (0 :: rest) = some [] := by
  simp [untilNul]

/-- The `n` bytes that `strncpy(dst, s, n)` stores at `dst`. -/
def strncpy (s : CString) (n : ℕ) : List UInt8 :=
  s.bytes.take n ++ List.replicate (n - s.bytes.length) 0

@[simp] theorem strncpy_length (s : CString) : (s.strncpy n).length = n := by
  simp [strncpy]
  omega

/-- **A copy and the byte behind it.** The first `n` bytes of the string are found again exactly if
the string is shorter than `n`, or the byte behind the copy is 0; otherwise there is no NUL. -/
theorem untilNul_strncpy (s : CString) (n : ℕ) (last : UInt8) :
    untilNul (s.strncpy n ++ [last]) =
      if s.bytes.length < n ∨ last = 0 then some (s.bytes.take n) else none := by
  have hno : 0 ∉ s.bytes.take n := fun h => s.zero_notMem (List.mem_of_mem_take h)
  rw [strncpy, List.append_assoc, untilNul_append hno]
  by_cases hlt : s.bytes.length < n
  · obtain ⟨k, hk⟩ : ∃ k, n - s.bytes.length = k + 1 := ⟨n - s.bytes.length - 1, by omega⟩
    rw [hk, List.replicate_succ, List.cons_append, untilNul_cons_zero, if_pos (.inl hlt)]
    simp
  · have hzero : n - s.bytes.length = 0 := by omega
    rw [hzero, List.replicate_zero, List.nil_append]
    by_cases hlast : last = 0
    · rw [hlast, untilNul_cons_zero, if_pos (.inr rfl)]
      simp
    · have hnone : untilNul [last] = none := untilNul_eq_none.2 (by simpa using Ne.symm hlast)
      rw [hnone, if_neg (by simp [hlt, hlast])]
      rfl

end CString
