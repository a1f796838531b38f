import Mathlib.Data.UInt
import Mathlib.Logic.Function.Basic

/-!
# Copies between user and kernel memory

A memory gives the byte at every address, and what a call does to it is the list of the bytes that
the call stores. `copyToUser` and `copyFromUser` are the kernel's two copies with any number of
bytes that they fail to transfer: both report that number, and the copy from user memory fills what
it could not transfer with zeros. `WithinBuffer` says that stores stay in the buffer of a call; for
consecutive bytes that is a matter of their number (`withinBuffer_storesAt_iff`). An `int` is four
bytes, the lowest first.
-/

namespace UserCopy

/-- The byte at every address. -/
abbrev Memory := ℕ → UInt8

/-- A byte that is stored, with its address. -/
abbrev Store := ℕ × UInt8

variable {m : Memory} {a x n : ℕ} {b : UInt8} {bs bs' : List UInt8} {stores : List Store}

/-- The stores of consecutive bytes, from the address `a` on. -/
def storesAt : ℕ → List UInt8 → List Store
  | _, [] => []
  | a, b :: bs => (a, b) :: storesAt (a + 1) bs

/-- The memory after some stores. -/
def apply (m : Memory) (stores : List Store) : Memory :=
  stores.foldl (fun m x => Function.update m x.1 x.2) m

/-- The `n` bytes from the address `a` on. -/
def load (m : Memory) (a n : ℕ) : List UInt8 := (List.range n).map fun i => m (a + i)

@[simp] theorem storesAt_length : (storesAt a bs).length = bs.length := by
  induction bs generalizing a with
  | nil => rfl
  | cons b bs ih => simp [storesAt, ih]

@[simp] theorem load_length : (load m a n).length = n := by
  simp [load]

theorem load_getElem {i : ℕ} (h : i < (load m a n).length) : (load m a n)[i] = m (a + i) := by
  simp [load]

/-- A store changes the byte at its address only. -/
theorem apply_storesAt : apply m (storesAt a bs) x =
    if a ≤ x then (bs[x - a]?).getD (m x) else m x := by
  induction bs generalizing m a with
  | nil => simp [storesAt, apply]
  | cons b bs ih =>
    have hcons : apply m (storesAt a (b :: bs)) x =
        apply (Function.update m a b) (storesAt (a + 1) bs) x := rfl
    rw [hcons, ih]
    rcases Nat.lt_trichotomy x a with hlt | rfl | hgt
    · rw [if_neg (by omega), if_neg (by omega), Function.update_of_ne hlt.ne]
    · rw [if_neg (by omega), if_pos le_rfl, Function.update_self]
      simp
    · obtain ⟨k, rfl⟩ : ∃ k, x = a + 1 + k := ⟨x - (a + 1), by omega⟩
      have hk : a + 1 + k - a = k + 1 := by omega
      rw [if_pos (by omega), if_pos (by omega), Function.update_of_ne (by omega), hk]
      simp

/-- **Frame.** Outside of the stored range nothing changes. -/
theorem apply_storesAt_of_notMem (h : x < a ∨ a + bs.length ≤ x) :
    apply m (storesAt a bs) x = m x := by
  rw [apply_storesAt]
  split
  · rw [List.getElem?_eq_none (by omega)]
    rfl
  · rfl

/-- In the stored range is what was stored. -/
theorem apply_storesAt_of_mem {i : ℕ} (h : i < bs.length) :
    apply m (storesAt a bs) (a + i) = bs[i] := by
  rw [apply_storesAt, if_pos (by omega), Nat.add_sub_cancel_left, List.getElem?_eq_getElem h]
  rfl

/-- What was stored is loaded again. -/
theorem load_apply_storesAt : load (apply m (storesAt a bs)) a bs.length = bs := by
  refine List.ext_getElem (by simp) fun i hi hi' => ?_
  rw [load_getElem, apply_storesAt_of_mem hi']

/-- What is loaded is a matter of the bytes of the range. -/
theorem load_congr {m' : Memory} (h : ∀ x, a ≤ x → x < a + n → m' x = m x) :
    load m' a n = load m a n := by
  refine List.ext_getElem (by simp) fun i hi hi' => ?_
  have hlt : i < n := by simpa using hi
  rw [load_getElem, load_getElem, h (a + i) (by omega) (by omega)]

theorem load_apply_storesAt_of_disjoint {p : ℕ} (h : p + n ≤ a ∨ a + bs.length ≤ p) :
    load (apply m (storesAt a bs)) p n = load m p n := by
  refine load_congr fun x hle hlt => apply_storesAt_of_notMem ?_
  omega

/-- A range is loaded in two parts. -/
theorem load_add (m : Memory) (a n k : ℕ) : load m a (n + k) = load m a n ++ load m (a + n) k := by
  simp [load, List.range_add, Nat.add_assoc]

theorem take_load {k : ℕ} : (load m a n).take k = load m a (min k n) := by
  rw [load, ← List.map_take, List.take_range]
  rfl

/-- A range that begins with the bytes `bs` is these bytes, as far as it goes, and what lies behind
them. -/
theorem load_eq_take_append (h : load m a bs.length = bs) (n : ℕ) :
    load m a n = bs.take n ++ load m (a + bs.length) (n - bs.length) := by
  rcases Nat.le_total n bs.length with hle | hle
  · rw [Nat.sub_eq_zero_of_le hle, ← h, take_load, load_length, Nat.min_eq_left hle]
    simp [load]
  · obtain ⟨k, rfl⟩ := Nat.exists_eq_add_of_le hle
    rw [load_add, h, List.take_of_length_le hle, Nat.add_sub_cancel_left]

/-- The byte at the address `x` matters to `f`: some other byte there changes what it gives. -/
def Reads {γ : Type*} (f : Memory → γ) (m : Memory) (x : ℕ) : Prop :=
  ∃ b, f (Function.update m x b) ≠ f m

/-! ## The copies -/

/-- `copy_to_user(dst, src, n)` of the `n` bytes `src` that fails to transfer `r` of them: what it
returns, and its stores to user memory. -/
def copyToUser (dst : ℕ) (src : List UInt8) (r : ℕ) : ℕ × List Store :=
  (r, storesAt dst (src.take (src.length - r)))

/-- The bytes that a copy of `src` from user memory stores when it fails to transfer `r` of them. -/
def padded (src : List UInt8) (r : ℕ) : List UInt8 :=
  src.take (src.length - r) ++ List.replicate r 0

/-- `copy_from_user(dst, src, n)` of the `n` bytes `src` that fails to transfer `r` of them: what it
returns, and its stores to kernel memory. -/
def copyFromUser (dst : ℕ) (src : List UInt8) (r : ℕ) : ℕ × List Store :=
  (r, storesAt dst (padded src r))

/-- The `i`-th byte of a copy from the address `a`. -/
theorem padded_getElem {r i : ℕ} (hi : i < (padded (load m a n) r).length) :
    (padded (load m a n) r)[i] = if i < n - r then m (a + i) else 0 := by
  simp only [padded, List.getElem_append, List.length_take, load_length, List.getElem_take,
    load_getElem, List.getElem_replicate]
  simp

theorem padded_length {src : List UInt8} {r : ℕ} (h : r ≤ src.length) :
    (padded src r).length = src.length := by
  simp [padded]
  omega

theorem padded_zero {src : List UInt8} : padded src 0 = src := by
  simp [padded]

/-! ## The buffer of a call -/

/-- The stores are at most `n`, none of them is below `a`, and they leave every byte from `a + n` on
as it was. -/
structure WithinBuffer (a n : ℕ) (stores : List Store) : Prop where
  length_le : stores.length ≤ n
  mem : ∀ x ∈ stores, a ≤ x.1
  frame : ∀ m x, a + n ≤ x → apply m stores x = m x

theorem mem_storesAt {x : Store} (h : x ∈ storesAt a bs) : a ≤ x.1 := by
  induction bs generalizing a with
  | nil => cases h
  | cons b bs ih =>
    rcases List.mem_cons.1 h with rfl | h
    · exact le_rfl
    · exact (Nat.le_succ a).trans (ih h)

/-- Consecutive bytes stay in a buffer that they begin exactly if they fit. -/
theorem withinBuffer_storesAt_iff : WithinBuffer a n (storesAt a bs) ↔ bs.length ≤ n := by
  constructor
  · intro h
    simpa using h.length_le
  · intro h
    exact ⟨by simpa using h, fun x hx => mem_storesAt hx,
      fun m x hx => apply_storesAt_of_notMem (.inr (by omega))⟩

/-! ## The bytes of an `int` -/

/-- The four bytes of an `int`, the lowest first. -/
def intBytes (v : Int32) : List UInt8 :=
  let k := v.toUInt32.toNat
  [UInt8.ofNat k, UInt8.ofNat (k / 256), UInt8.ofNat (k / 65536), UInt8.ofNat (k / 16777216)]

/-- The number that some bytes stand for, the lowest first. -/
def ofBytes (bs : List UInt8) : ℕ := bs.foldr (fun b k => b.toNat + 256 * k) 0

/-- The `int` at the address `a`. -/
def loadInt (m : Memory) (a : ℕ) : Int32 := (UInt32.ofNat (ofBytes (load m a 4))).toInt32

theorem toInt_loadInt : (loadInt m a).toInt = (ofBytes (load m a 4) : ℤ).bmod (2 ^ 32) := by
  rw [loadInt, Int32.toInt, UInt32.toBitVec_toInt32]
  exact BitVec.toInt_ofNat ..

theorem ofBytes_lt : ofBytes bs < 256 ^ bs.length := by
  induction bs with
  | nil => simp [ofBytes]
  | cons b bs ih =>
    have hb := b.toNat_lt
    show b.toNat + 256 * ofBytes bs < 256 ^ (bs.length + 1)
    rw [Nat.pow_succ]
    omega

/-- The bytes of a number are a matter of the number and of how many they are. -/
theorem ofBytes_inj (hlength : bs.length = bs'.length) (h : ofBytes bs = ofBytes bs') :
    bs = bs' := by
  induction bs generalizing bs' with
  | nil => exact (List.length_eq_zero_iff.1 hlength.symm).symm
  | cons b bs ih =>
    cases bs' with
    | nil => cases hlength
    | cons b' bs' =>
      have hb := b.toNat_lt
      have hb' := b'.toNat_lt
      have hsum : b.toNat + 256 * ofBytes bs = b'.toNat + 256 * ofBytes bs' := h
      have hlow : b = b' := UInt8.toNat_inj.1 (by omega)
      rw [hlow, ih (Nat.succ.inj hlength) (by omega)]

@[simp] theorem intBytes_length (v : Int32) : (intBytes v).length = 4 := rfl

theorem ofBytes_intBytes (v : Int32) : ofBytes (intBytes v) = v.toUInt32.toNat := by
  have hlt := v.toUInt32.toNat_lt
  simp only [ofBytes, intBytes, List.foldr_cons, List.foldr_nil, UInt8.toNat_ofNat']
  omega

/-- The `int` at an address is a matter of its four bytes. -/
theorem loadInt_apply_storesAt (h : bs.length = 4) :
    loadInt (apply m (storesAt a bs)) a = (UInt32.ofNat (ofBytes bs)).toInt32 := by
  have hload : load (apply m (storesAt a bs)) a 4 = bs := h ▸ load_apply_storesAt
  rw [loadInt, hload]

/-- An `int` that was stored is loaded again. -/
theorem loadInt_apply (v : Int32) : loadInt (apply m (storesAt a (intBytes v))) a = v := by
  rw [loadInt_apply_storesAt (intBytes_length v), ofBytes_intBytes, UInt32.ofNat_toNat]
  rfl

end UserCopy
