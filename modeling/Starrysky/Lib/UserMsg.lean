import Starrysky.Lib.MessageQueue
import Starrysky.Lib.UserCopy

/-!
# Message calls and the memory of the caller

The argument of `msgsnd` and of `msgrcv` points to a message in user memory: a `long` of eight
bytes, its type, and the text behind it. The size argument counts the text alone, so that a call of
size `sz` is about `8 + sz` bytes (`reads_sent_iff`, `received_writes_iff`).
-/

namespace UserMsg

open MessageQueue UserCopy

variable {m m' : Memory} {p sz x : ℕ} {msg : Msg (List UInt8)}

/-- The eight bytes of a `long`, the lowest first. -/
def longBytes (v : Int64) : List UInt8 :=
  let k := v.toUInt64.toNat
  [UInt8.ofNat k, UInt8.ofNat (k / 2 ^ 8), UInt8.ofNat (k / 2 ^ 16), UInt8.ofNat (k / 2 ^ 24),
    UInt8.ofNat (k / 2 ^ 32), UInt8.ofNat (k / 2 ^ 40), UInt8.ofNat (k / 2 ^ 48),
    UInt8.ofNat (k / 2 ^ 56)]

/-- The `long` at the address `a`. -/
def loadLong (m : Memory) (a : ℕ) : Int64 := (UInt64.ofNat (ofBytes (load m a 8))).toInt64

@[simp] theorem longBytes_length (v : Int64) : (longBytes v).length = 8 := rfl

theorem ofBytes_longBytes (v : Int64) : ofBytes (longBytes v) = v.toUInt64.toNat := by
  have hlt := v.toUInt64.toNat_lt
  simp only [ofBytes, longBytes, List.foldr_cons, List.foldr_nil, UInt8.toNat_ofNat']
  omega

/-- A `long` that was stored is loaded again. -/
theorem loadLong_apply (v : Int64) : loadLong (apply m (storesAt p (longBytes v))) p = v := by
  have hload : load (apply m (storesAt p (longBytes v))) p 8 = longBytes v := load_apply_storesAt
  rw [loadLong, hload, ofBytes_longBytes, UInt64.ofNat_toNat]
  rfl

/-- The `long` at an address is a matter of its eight bytes. -/
theorem loadLong_congr (h : ∀ x, p ≤ x → x < p + 8 → m' x = m x) :
    loadLong m' p = loadLong m p := by
  have hload : load m' p 8 = load m p 8 := load_congr h
  rw [loadLong, loadLong, hload]

/-- Different bytes are different `long`s. -/
theorem load_eq_of_loadLong_eq (h : loadLong m' p = loadLong m p) : load m' p 8 = load m p 8 := by
  refine ofBytes_inj (by simp) ?_
  have hlt : ofBytes (load m p 8) < 256 ^ (load m p 8).length := ofBytes_lt
  have hlt' : ofBytes (load m' p 8) < 256 ^ (load m' p 8).length := ofBytes_lt
  have hnat := congrArg UInt64.toNat (congrArg Int64.toUInt64 h)
  simp only [load_length] at hlt hlt'
  simp only [loadLong, UInt64.toUInt64_toInt64, UInt64.toNat_ofNat'] at hnat
  omega

/-- What `msgsnd(id, p, sz, flags)` puts into the queue. -/
def sent (m : Memory) (p sz : ℕ) : Msg (List UInt8) := ⟨(loadLong m p).toInt, load m (p + 8) sz, sz⟩

/-- What `msgrcv(id, p, sz, type, 0)` stores of the message that it takes; `none` is `E2BIG`. -/
def received (p sz : ℕ) (msg : Msg (List UInt8)) : Option (List Store) :=
  if msg.text.length ≤ sz then some (storesAt p (longBytes (.ofInt msg.mtype) ++ msg.text))
  else none

/-- What is sent is a matter of the eight bytes of the type and `sz` bytes behind them. -/
theorem sent_congr (h : ∀ x, p ≤ x → x < p + 8 + sz → m' x = m x) : sent m' p sz = sent m p sz := by
  have htype : loadLong m' p = loadLong m p := loadLong_congr fun x hle hlt => h x hle (by omega)
  have htext : load m' (p + 8) sz = load m (p + 8) sz :=
    load_congr fun x hle hlt => h x (by omega) hlt
  rw [sent, sent, htype, htext]

/-- Messages that were sent from different bytes are different. -/
theorem eq_of_sent_eq (h : sent m' p sz = sent m p sz) (hle : p ≤ x) (hlt : x < p + 8 + sz) :
    m' x = m x := by
  obtain ⟨htype, htext, -⟩ := Msg.mk.inj h
  obtain ⟨i, rfl⟩ := Nat.exists_eq_add_of_le hle
  by_cases hi : i < 8
  · have hbyte := congrArg (·[i]?) (load_eq_of_loadLong_eq (Int64.toInt_inj.1 htype))
    simpa [load, hi] using hbyte
  · obtain ⟨j, rfl⟩ := Nat.exists_eq_add_of_le (not_lt.1 hi)
    have hbyte := congrArg (·[j]?) htext
    have hj : j < sz := by omega
    simpa [load, hj, Nat.add_assoc] using hbyte

theorem received_eq_some {stores : List Store} : received p sz msg = some stores ↔
    msg.text.length ≤ sz ∧ storesAt p (longBytes (.ofInt msg.mtype) ++ msg.text) = stores := by
  simp [received]

/-- A message that was received is found behind its type. -/
theorem load_received {stores : List Store} (h : received p sz msg = some stores) :
    load (apply m stores) (p + 8) msg.text.length = msg.text := by
  obtain ⟨-, rfl⟩ := received_eq_some.1 h
  generalize hbs : longBytes (.ofInt msg.mtype) ++ msg.text = bs
  have hlength : bs.length = 8 + msg.text.length := by simp [← hbs]
  have hload : load (apply m (storesAt p bs)) p bs.length = bs := load_apply_storesAt
  rw [hlength, load_add] at hload
  exact (List.append_inj (hload.trans hbs.symm) (by simp)).2

theorem apply_received {stores : List Store} (h : received p sz msg = some stores)
    (hout : x < p ∨ p + 8 + sz ≤ x) : apply m stores x = m x := by
  obtain ⟨hle, rfl⟩ := received_eq_some.1 h
  refine apply_storesAt_of_notMem ?_
  rw [List.length_append, longBytes_length]
  omega

/-- **What `msgsnd` reads**, whatever memory holds. -/
theorem reads_sent_iff : Reads (sent · p sz) m x ↔ p ≤ x ∧ x < p + 8 + sz := by
  constructor
  · rintro ⟨b, hb⟩
    by_contra hout
    refine hb (sent_congr fun y hle hlt => Function.update_of_ne ?_ ..)
    rintro rfl
    exact hout ⟨hle, hlt⟩
  · rintro ⟨hle, hlt⟩
    refine ⟨m x + 1, fun h => ?_⟩
    have hbyte := eq_of_sent_eq h hle hlt
    simp at hbyte

/-- **What `msgrcv` writes** stays in the first `n` bytes exactly if the type and the text fit
there, or the message is refused. -/
theorem received_writes_iff {n : ℕ} :
    (∀ stores ∈ received p sz msg, WithinBuffer p n stores) ↔
      8 + msg.text.length ≤ n ∨ sz < msg.text.length := by
  by_cases hsz : msg.text.length ≤ sz
  · simp [received, hsz, withinBuffer_storesAt_iff]
  · simp [received, hsz]
    omega

end UserMsg
