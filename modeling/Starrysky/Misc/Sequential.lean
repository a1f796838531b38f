import Starrysky.Lib.Reactive
import Starrysky.Misc.Transfer
import Mathlib.Data.List.Induction

/-!
# One call after the other

Writes and reads of full width, without faults and one at a time, on the bytes of `Transfer`. A read
gives the value of the latest write and 10, as an `int` has it: 0 before any write, and reduced to
32 bits after (`loadInt_after`). So it gives the number `v + 10` as long as the increment of no
write leaves the range of an `int` (`exact_iff`), and the number 0 as long as there was none.
-/

namespace Starrysky.Misc

open Reactive UserCopy

/-- The calls, with the memory of the caller and the address of its `int`. -/
inductive Call where
  | write (user : Memory) (buf : ℕ)
  | read (user : Memory) (buf : ℕ)

/-- A call with `gval` at the address `gval`: the `int` that a read leaves in the caller's memory,
and kernel memory afterwards. -/
def call (gval : ℕ) (mem : Memory) : Call → Option Int32 × Memory
  | .write user buf => (none, (dmiscWrite mem user gval buf 4 0).2)
  | .read user buf => (some (loadInt (apply user (dmiscRead mem gval buf 4 0).2) buf), mem)

/-- Kernel memory when the module has been loaded: `gval` is 0. -/
def loaded (mem : Memory) (gval : ℕ) : Memory := apply mem (storesAt gval (intBytes 0))

/-- The value of the latest write. -/
def latest (calls : List Call) : Option Int32 :=
  calls.foldl (fun v c => match c with
    | .write user buf => some (loadInt user buf)
    | .read .. => v) none

/-- What a read should give after some calls: the number `v + 10`, or `first` if there was no write.
-/
def expected (first : ℤ) (calls : List Call) : ℤ :=
  match latest calls with
  | none => first
  | some v => v.toInt + 10

/-- Each read of the script gives exactly the number that it should, and the increment of no write
leaves the range of an `int`. -/
structure Exact (first : ℤ) (mem : Memory) (gval : ℕ) (calls : List Call) : Prop where
  reads : ∀ pre user buf post, calls = pre ++ .read user buf :: post →
    ∃ x, (call gval (after (call gval) (loaded mem gval) pre) (.read user buf)).1 = some x ∧
      x.toInt = expected first pre
  range : ∀ pre user buf post, calls = pre ++ .write user buf :: post →
    (loadInt (after (call gval) (loaded mem gval) (pre ++ [.write user buf])) gval).toInt =
      (loadInt user buf).toInt + 10

variable {first : ℤ} {mem user : Memory} {gval buf : ℕ} {calls pre : List Call} {c : Call}

theorem latest_concat_write : latest (pre ++ [.write user buf]) = some (loadInt user buf) := by
  simp [latest]

theorem latest_concat_read : latest (pre ++ [.read user buf]) = latest pre := by
  simp [latest]

theorem write_of_latest {v : Int32} (h : latest pre = some v) :
    ∃ user buf, .write user buf ∈ pre ∧ loadInt user buf = v := by
  induction pre using List.reverseRecOn with
  | nil => cases h
  | append_singleton pre c ih =>
    cases c with
    | write user buf =>
      rw [latest_concat_write] at h
      exact ⟨user, buf, by simp, Option.some.inj h⟩
    | read user buf =>
      rw [latest_concat_read] at h
      obtain ⟨user', buf', hmem, hv⟩ := ih h
      exact ⟨user', buf', List.mem_append_left _ hmem, hv⟩

theorem after_concat : after (call gval) mem (pre ++ [c]) =
    (call gval (after (call gval) mem pre) c).2 := by
  induction pre generalizing mem with
  | nil => rfl
  | cons c' pre ih => exact ih

/-- **Run lemma.** `gval` holds the value of the latest write and 10, and reads leave it alone. -/
theorem loadInt_after : loadInt (after (call gval) (loaded mem gval) calls) gval =
    (latest calls).elim 0 (· + 10) := by
  induction calls using List.reverseRecOn with
  | nil => exact loadInt_apply 0
  | append_singleton calls c ih =>
    rw [after_concat]
    cases c with
    | write user buf => rw [latest_concat_write]; exact dmiscWrite_gval
    | read user buf => rw [latest_concat_read]; exact ih

/-- The increment stays in the range of an `int` for the values up to `INT_MAX - 10`. -/
theorem toInt_add_ten {v : Int32} : (v + 10).toInt = v.toInt + 10 ↔ v.toInt ≤ 2147483637 := by
  have hge := v.le_toInt
  have hlt := v.toInt_lt
  have hlt' := (v + 10).toInt_lt
  constructor
  · intro h
    omega
  · intro h
    rw [Int32.toInt_add]
    exact Int.bmod_eq_of_le (by simp; omega) (by simp; omega)

theorem latest_ne_none_iff : latest pre ≠ none ↔ ∃ user buf, .write user buf ∈ pre := by
  induction pre using List.reverseRecOn with
  | nil => simp [latest]
  | append_singleton pre c ih =>
    cases c with
    | write user buf =>
      rw [latest_concat_write]
      exact ⟨fun _ => ⟨user, buf, by simp⟩, fun _ => by simp⟩
    | read user buf => simpa [latest_concat_read] using ih

/-- What a read gives, as a number, and what it should. -/
theorem toInt_read_eq (hrange : ∀ user buf, .write user buf ∈ pre →
      (loadInt user buf).toInt ≤ 2147483637) :
    ((latest pre).elim 0 (· + 10) : Int32).toInt = expected first pre ↔
      first = 0 ∨ latest pre ≠ none := by
  rw [expected]
  cases hlatest : latest pre with
  | none => simp [eq_comm]
  | some v =>
    obtain ⟨user, buf, hmem, rfl⟩ := write_of_latest hlatest
    simpa using toInt_add_ten.2 (hrange user buf hmem)

/-- **When the reads are exact.** In every script of writes and reads, each read gives exactly the
number `v + 10` for the value `v` of the latest write before it, or `first` if there was none, and
no increment leaves the range of an `int`, if and only if no write has a value above `INT_MAX - 10`,
and `first` is 0 or each read comes behind a write. -/
theorem exact_iff (first : ℤ) (mem : Memory) (gval : ℕ) (calls : List Call) :
    Exact first mem gval calls ↔
      (∀ user buf, .write user buf ∈ calls → (loadInt user buf).toInt ≤ 2147483637) ∧
        (first = 0 ∨ ∀ pre user buf post, calls = pre ++ .read user buf :: post →
          ∃ user' buf', .write user' buf' ∈ pre) := by
  have hwrite : ∀ pre user buf,
      (loadInt (after (call gval) (loaded mem gval) (pre ++ [.write user buf])) gval).toInt =
          (loadInt user buf).toInt + 10 ↔ (loadInt user buf).toInt ≤ 2147483637 := by
    intro pre user buf
    rw [loadInt_after, latest_concat_write]
    exact toInt_add_ten
  have hread : ∀ pre user buf,
      (call gval (after (call gval) (loaded mem gval) pre) (.read user buf)).1 =
        some ((latest pre).elim 0 (· + 10)) := by
    intro pre user buf
    rw [call, dmiscRead_gval, loadInt_after]
  constructor
  · intro h
    have hrange : ∀ user buf, .write user buf ∈ calls →
        (loadInt user buf).toInt ≤ 2147483637 := by
      intro user buf hmem
      obtain ⟨pre, post, hcalls⟩ := List.append_of_mem hmem
      exact (hwrite pre user buf).1 (h.range pre user buf post hcalls)
    refine ⟨hrange, or_iff_not_imp_left.2 fun hfirst pre user buf post hcalls => ?_⟩
    obtain ⟨x, hx, hexact⟩ := h.reads pre user buf post hcalls
    obtain rfl := Option.some.inj ((hread pre user buf).symm.trans hx)
    have hbefore : ∀ user buf, .write user buf ∈ pre → (loadInt user buf).toInt ≤ 2147483637 :=
      fun user buf hmem => hrange user buf (hcalls ▸ List.mem_append_left _ hmem)
    exact latest_ne_none_iff.1 (((toInt_read_eq hbefore).1 hexact).resolve_left hfirst)
  · rintro ⟨hrange, hfirst⟩
    refine ⟨fun pre user buf post hcalls => ⟨_, hread pre user buf, ?_⟩,
      fun pre user buf post hcalls => ?_⟩
    · have hbefore : ∀ user buf, .write user buf ∈ pre → (loadInt user buf).toInt ≤ 2147483637 :=
        fun user buf hmem => hrange user buf (hcalls ▸ List.mem_append_left _ hmem)
      exact (toInt_read_eq hbefore).2
        (hfirst.imp_right fun h => latest_ne_none_iff.2 (h pre user buf post hcalls))
    · exact (hwrite pre user buf).2 (hrange user buf (by simp [hcalls]))

/-- The memory of a caller whose `int` at the address 0 is `v`. -/
def caller (v : Int32) : Memory := apply (fun _ => 0) (storesAt 0 (intBytes v))

/-- A write of `INT_MAX` comes back as a negative number. -/
theorem not_exact_intMax :
    ¬ ∃ first, Exact first (fun _ => 0) 64 [.write (caller 2147483647) 0, .read (caller 0) 0] := by
  rintro ⟨first, h⟩
  obtain ⟨x, hx, hexact⟩ := h.reads [.write (caller 2147483647) 0] (caller 0) 0 [] rfl
  have hread : x = -2147483639 := by
    rw [call, dmiscRead_gval, loadInt_after] at hx
    exact (Option.some.inj hx).symm.trans (by decide)
  have hexpected : expected first [.write (caller 2147483647) 0] =
      (loadInt (caller 2147483647) 0).toInt + 10 := rfl
  rw [hread, hexpected, caller, loadInt_apply] at hexact
  exact absurd hexact (by decide)

end Starrysky.Misc
