import Mathlib.Data.Int.Notation
import Mathlib.Data.List.Basic

/-!
# System V message queues

A queue of typed messages with a capacity in bytes. A send appends its message when it fits, and a
receive of a positive type takes the oldest message of that type. A call that would wait is `none`.
-/

namespace MessageQueue

structure Msg (β : Type*) where
  mtype : ℤ
  text : β
  msgsz : ℕ
  deriving DecidableEq

variable {β : Type*} {cap : Option ℕ} {q q' : List (Msg β)} {m : Msg β} {t : ℤ}

def bytes : List (Msg β) → ℕ
  | [] => 0
  | m :: q => m.msgsz + bytes q

/-- `msgsnd` on a queue of capacity `cap`, or of unlimited capacity. -/
def msgsnd (cap : Option ℕ) (q : List (Msg β)) (m : Msg β) : Option (List (Msg β)) :=
  if ∀ c ∈ cap, bytes q + m.msgsz ≤ c then some (q ++ [m]) else none

/-- `msgrcv` of the positive type `t`: the message, and the queue without it. -/
def msgrcv (t : ℤ) (q : List (Msg β)) : Option (Msg β × List (Msg β)) :=
  (q.find? fun m => m.mtype = t).map fun m => (m, q.eraseP fun m => m.mtype = t)

theorem bytes_concat : bytes (q ++ [m]) = bytes q + m.msgsz := by
  induction q with
  | nil => simp [bytes]
  | cons x q ih => simp [bytes, ih, Nat.add_assoc]

theorem msgsnd_eq_some :
    msgsnd cap q m = some q' ↔ (∀ c ∈ cap, bytes q + m.msgsz ≤ c) ∧ q' = q ++ [m] := by
  rw [msgsnd, Option.ite_none_right_eq_some, Option.some.injEq, eq_comm]

/-- A send waits exactly if the message does not fit. -/
theorem msgsnd_eq_none : msgsnd cap q m = none ↔ ∃ c ∈ cap, c < bytes q + m.msgsz := by
  simp [msgsnd]

theorem msgrcv_eq_none : msgrcv t q = none ↔ ∀ m ∈ q, m.mtype ≠ t := by
  simp [msgrcv]

/-- A message behind messages of other types is received from behind them. -/
theorem msgrcv_concat (h : ∀ x ∈ q, x.mtype ≠ t) (hm : m.mtype = t) :
    msgrcv t (q ++ [m]) = some (m, q) := by
  have hfind : q.find? (fun x => x.mtype = t) = none := by simpa using h
  have herase : (q ++ [m]).eraseP (fun x => x.mtype = t) = q := by
    rw [List.eraseP_append_right _ (by simpa using h)]
    simp [hm]
  simp [msgrcv, hfind, hm, herase]

/-! ## The messages of one type -/

/-- The messages of the type `t`, the oldest first. -/
def ofType (t : ℤ) (q : List (Msg β)) : List (Msg β) := q.filter fun m => m.mtype = t

theorem ofType_concat_self (hm : m.mtype = t) : ofType t (q ++ [m]) = ofType t q ++ [m] := by
  simp [ofType, List.filter_append, hm]

theorem ofType_concat_of_ne (hm : m.mtype ≠ t) : ofType t (q ++ [m]) = ofType t q := by
  simp [ofType, List.filter_append, hm]

/-- A receive takes the oldest message of its type, and no message of another type. -/
theorem ofType_msgrcv (h : msgrcv t q = some (m, q')) :
    m.mtype = t ∧ ofType t q = m :: ofType t q' ∧ ∀ u, u ≠ t → ofType u q' = ofType u q := by
  obtain ⟨x, hfind, hx⟩ := Option.map_eq_some_iff.1 h
  obtain ⟨rfl, rfl⟩ := Prod.mk.inj hx
  obtain ⟨hm, before, behind, rfl, hbefore⟩ := List.find?_eq_some_iff_append.1 hfind
  have hm : x.mtype = t := by simpa using hm
  have hbefore : ∀ y ∈ before, y.mtype ≠ t := by simpa using hbefore
  have herase : (before ++ x :: behind).eraseP (fun y => y.mtype = t) = before ++ behind := by
    rw [List.eraseP_append_right _ (by simpa using hbefore)]
    simp [hm]
  have hnone : ofType t before = [] := by simpa [ofType] using hbefore
  rw [herase]
  refine ⟨hm, ?_, fun u hu => ?_⟩
  · simp only [ofType, List.filter_append] at hnone ⊢
    simp [hnone, hm]
  · simp [ofType, List.filter_append, hm, hu.symm]

theorem msgrcv_isSome : (msgrcv t q).isSome ↔ ofType t q ≠ [] := by
  simp [msgrcv, ofType]

end MessageQueue
