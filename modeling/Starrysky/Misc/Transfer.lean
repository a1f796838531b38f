import Starrysky.Lib.UserCopy
import Starrysky.Misc.Gval

/-!
# The bytes of `misc_1_demo`

`dmisc_write` and `dmisc_read` as they move bytes, with any number of bytes that the copies fail to
transfer. `gval` occupies four bytes of kernel memory. The write takes `count` for the length of its
copy and the read does not look at `count`, and both return what the copy returns. A write of four
bytes without a fault is the write of `Gval` (`dmiscWrite_refines`).
-/

namespace Starrysky.Misc

open Transition UserCopy

/-- `int ret = copy_...(...)` and `return ret`. -/
def retInt (n : ℕ) : Int64 := (Int32.ofNat n).toInt64

/-- `dmisc_read`, with `gval` at the address `gval` and `r` bytes that `copy_to_user` fails to
transfer: what it returns, and its stores to user memory. -/
def dmiscRead (mem : Memory) (gval buf _count r : ℕ) : Int64 × List Store :=
  let (ret, stores) := copyToUser buf (load mem gval 4) r
  (retInt ret, stores)

/-- `dmisc_write`, with `r` bytes that `copy_from_user` fails to transfer: what it returns, and
kernel memory afterwards. -/
def dmiscWrite (mem user : Memory) (gval buf count r : ℕ) : Int64 × Memory :=
  let (ret, stores) := copyFromUser gval (load user buf count) r
  let mem := apply mem stores
  (retInt ret, apply mem (storesAt gval (intBytes (loadInt mem gval + 10))))

variable {mem user : Memory} {gval buf count r x : ℕ}

theorem retInt_toInt {n : ℕ} (h : n ≤ 4) : (retInt n).toInt = n := by
  rw [retInt, Int32.toInt_toInt64, Int32.toInt_ofNat_of_lt (by omega)]

theorem dmiscRead_fst : (dmiscRead mem gval buf count r).1 = retInt r := rfl

/-! ## The write and the read without faults -/

/-- A write of four bytes leaves their value and 10. -/
theorem dmiscWrite_gval :
    loadInt (dmiscWrite mem user gval buf 4 0).2 gval = loadInt user buf + 10 := by
  have hcopy : loadInt (apply mem (storesAt gval (load user buf 4))) gval = loadInt user buf :=
    loadInt_apply_storesAt load_length
  rw [dmiscWrite, loadInt_apply, copyFromUser, padded_zero, hcopy]

/-- A read gives the user the value of `gval`. -/
theorem dmiscRead_gval :
    loadInt (apply user (dmiscRead mem gval buf 4 0).2) buf = loadInt mem gval := by
  have htake : (load mem gval 4).take ((load mem gval 4).length - 0) = load mem gval 4 :=
    List.take_length
  rw [dmiscRead, copyToUser, htake]
  exact loadInt_apply_storesAt load_length

/-- A write of four bytes is the two steps of a write of `Gval`, and a read is its read. -/
theorem dmiscWrite_refines {P : Type} [DecidableEq P] {s : State P} {p : P}
    (hgval : s.gval = loadInt mem gval) (hp : p ∉ s.writing) :
    (∃ t, exec step s [.copy p (loadInt user buf), .add p] = some t ∧
      t.gval = loadInt (dmiscWrite mem user gval buf 4 0).2 gval ∧ t.writing = s.writing) ∧
    ∃ t, step s (.read p) = some t ∧
      t.got p = some (loadInt (apply user (dmiscRead mem gval buf 4 0).2) buf) := by
  constructor
  · refine ⟨{ s with gval := loadInt user buf + 10 }, ?_, dmiscWrite_gval.symm, rfl⟩
    simp [step, hp]
  · refine ⟨{ s with got := Function.update s.got p (some s.gval) }, if_pos hp, ?_⟩
    rw [dmiscRead_gval, ← hgval]
    simp

/-! ## What a write changes -/

/-- A write changes no byte outside of the four bytes of `gval`. -/
def WritesOnlyGval (mem user : Memory) (gval buf count r : ℕ) : Prop :=
  ∀ x, x < gval ∨ gval + 4 ≤ x → (dmiscWrite mem user gval buf count r).2 x = mem x

/-- Outside of `gval` is what the copy has put there. -/
theorem dmiscWrite_of_notMem (hx : x < gval ∨ gval + 4 ≤ x) :
    (dmiscWrite mem user gval buf count r).2 x =
      apply mem (storesAt gval (padded (load user buf count) r)) x := by
  rw [dmiscWrite]
  exact apply_storesAt_of_notMem hx

/-- A write changes nothing but `gval` exactly if each byte that the copy stores behind the fourth
is the byte that was there. -/
theorem writesOnlyGval_iff_bytes (h : r ≤ count) : WritesOnlyGval mem user gval buf count r ↔
    ∀ i, 4 ≤ i → i < count → (if i < count - r then user (buf + i) else 0) = mem (gval + i) := by
  have hlength : (padded (load user buf count) r).length = count := by
    rw [padded_length (by simpa using h), load_length]
  constructor
  · intro hw i hi hcount
    have hi' : i < (padded (load user buf count) r).length := by omega
    have hframe := hw (gval + i) (.inr (by omega))
    rwa [dmiscWrite_of_notMem (.inr (by omega)), apply_storesAt_of_mem hi', padded_getElem]
      at hframe
  · intro hbytes x hx
    rw [dmiscWrite_of_notMem hx]
    by_cases hmem : gval ≤ x ∧ x < gval + count
    · obtain ⟨i, rfl⟩ := Nat.exists_eq_add_of_le hmem.1
      have hi : i < (padded (load user buf count) r).length := by omega
      rw [apply_storesAt_of_mem hi, padded_getElem]
      exact hbytes i (by omega) (by omega)
    · exact apply_storesAt_of_notMem (by omega)

/-- **The frame of a write.** Whatever kernel memory holds, a write changes nothing but `gval`
exactly if `count` is at most 4. In a given memory a longer write does so exactly if each byte that
it stores behind the fourth, transferred or padding, is the byte that was there. -/
theorem writesOnlyGval_iff (user : Memory) (gval buf count r : ℕ) (h : r ≤ count) :
    ((∀ mem, WritesOnlyGval mem user gval buf count r) ↔ count ≤ 4) ∧
      ∀ mem, WritesOnlyGval mem user gval buf count r ↔ ∀ i, 4 ≤ i → i < count →
        (if i < count - r then user (buf + i) else 0) = mem (gval + i) := by
  refine ⟨⟨fun hw => ?_, fun hcount mem => ?_⟩, fun mem => writesOnlyGval_iff_bytes h⟩
  · by_contra hcount
    -- a memory in which the fifth byte is not the one that the copy stores
    have hfifth := (writesOnlyGval_iff_bytes h).1
      (hw fun _ => (if 4 < count - r then user (buf + 4) else 0) + 1) 4 le_rfl (by omega)
    exact absurd hfifth.symm (by simp)
  · exact (writesOnlyGval_iff_bytes h).2 fun i hi hi' => absurd hi' (by omega)

theorem writesOnlyGval_sizeof : WritesOnlyGval (fun _ => 0) (fun _ => 7) 64 0 4 0 :=
  (writesOnlyGval_iff (fun _ => 7) 64 0 4 0 (by decide)).1.2 le_rfl _

/-- A write of five bytes stores the fifth behind `gval`. -/
theorem not_writesOnlyGval_five : ¬ WritesOnlyGval (fun _ => 0) (fun _ => 7) 64 0 5 0 := by
  intro h
  exact absurd (h 68 (by decide)) (by decide)

/-! ## What a transfer reports -/

/-- The result accounts for a transfer of `transferred` bytes with `r` more that failed. -/
structure Accounts (res : Int64) (transferred r : ℕ) : Prop where
  nonneg : 0 ≤ res → res.toInt = transferred
  failed : 0 < r → res.toInt = transferred ∨ res < 0

/-- The result of a write accounts for its transfer, and if it is negative `gval` is as it was. -/
structure WriteAccounts (mem user : Memory) (gval buf count r : ℕ) : Prop where
  accounts : Accounts (dmiscWrite mem user gval buf count r).1 (count - r) r
  kept : (dmiscWrite mem user gval buf count r).1 < 0 →
    loadInt (dmiscWrite mem user gval buf count r).2 gval = loadInt mem gval

/-- The result of a read accounts for the bytes that it has stored. -/
def ReadAccounts (mem : Memory) (gval buf count r : ℕ) : Prop :=
  Accounts (dmiscRead mem gval buf count r).1 (dmiscRead mem gval buf count r).2.length r

/-- Both return the number of bytes that were not transferred. -/
theorem accounts_retInt_iff {n k : ℕ} (hr : r ≤ 4) : Accounts (retInt r) k n ↔ r = k := by
  have hret := retInt_toInt hr
  have hnonneg : 0 ≤ retInt r := by
    rw [Int64.le_iff_toInt_le, hret]
    simp
  constructor
  · intro h
    have := h.nonneg hnonneg
    omega
  · rintro rfl
    exact ⟨fun _ => hret, fun _ => .inl hret⟩

theorem retInt_nonneg {n : ℕ} (h : n ≤ 4) : ¬ retInt n < 0 := by
  rw [Int64.lt_iff_toInt_lt, retInt_toInt h]
  simp

/-- The stores of a read are the bytes that were transferred. -/
theorem dmiscRead_stores_length : (dmiscRead mem gval buf count r).2.length = 4 - r := by
  simp [dmiscRead, copyToUser]

/-- **What the results say.** The result of a write accounts for the transfer exactly if half of the
bytes were transferred, and so does the result of a read, which copies four whatever `count` is. -/
theorem transfer_accounts_iff (mem user : Memory) (gval buf count r : ℕ) (hcount : count ≤ 4)
    (hr : r ≤ count) :
    (WriteAccounts mem user gval buf count r ↔ count = 2 * r) ∧
      (ReadAccounts mem gval buf count r ↔ r = 2) := by
  have hr4 : r ≤ 4 := hr.trans hcount
  constructor
  · constructor
    · intro h
      have := (accounts_retInt_iff hr4).1 h.accounts
      omega
    · intro h
      exact ⟨(accounts_retInt_iff hr4).2 (by omega), fun hneg => absurd hneg (retInt_nonneg hr4)⟩
  · rw [ReadAccounts, dmiscRead_stores_length, dmiscRead_fst, accounts_retInt_iff hr4]
    omega

theorem transfer_accounts_half :
    WriteAccounts (fun _ => 0) (fun _ => 7) 64 0 4 2 ∧ ReadAccounts (fun _ => 0) 64 0 4 2 := by
  obtain ⟨hwrite, hread⟩ := transfer_accounts_iff (fun _ => 0) (fun _ => 7) 64 0 4 2 (by decide)
    (by decide)
  exact ⟨hwrite.2 rfl, hread.2 rfl⟩

/-- A write and a read of four bytes without a fault return 0. -/
theorem not_accounts_full : ¬ WriteAccounts (fun _ => 0) (fun _ => 7) 64 0 4 0 ∧
    ¬ ReadAccounts (fun _ => 0) 64 0 4 0 := by
  constructor
  · intro h
    exact absurd (h.accounts.nonneg (by decide)) (by decide)
  · intro h
    exact absurd (h.nonneg (by decide)) (by decide)

end Starrysky.Misc
