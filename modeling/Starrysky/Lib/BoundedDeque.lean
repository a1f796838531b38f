import Mathlib.Data.List.Basic

/-!
# Bounded deques

A sequence with two ends and a capacity that its type carries, so that a deque that is too long
cannot be built. A push on a full deque and a pop on an empty one are refused (`none`).
-/

/-- A deque of at most `cap` items, the front first. -/
structure BoundedDeque (α : Type*) (cap : ℕ) where
  items : List α
  bound : items.length ≤ cap

namespace BoundedDeque

variable {α : Type*} {cap : ℕ}

/-- The deque that holds nothing. -/
def empty : BoundedDeque α cap := ⟨[], Nat.zero_le _⟩

/-- Put an item before all others, unless the deque is full. -/
def pushFront (d : BoundedDeque α cap) (a : α) : Option (BoundedDeque α cap) :=
  if h : d.items.length < cap then some ⟨a :: d.items, h⟩ else none

/-- Put an item after all others, unless the deque is full. -/
def pushBack (d : BoundedDeque α cap) (a : α) : Option (BoundedDeque α cap) :=
  if h : d.items.length < cap then some ⟨d.items ++ [a], List.length_append ▸ h⟩ else none

/-- Take the first item, unless there is none. -/
def popFront : BoundedDeque α cap → Option (α × BoundedDeque α cap)
  | ⟨[], _⟩ => none
  | ⟨a :: l, h⟩ => some (a, ⟨l, Nat.le_of_succ_le h⟩)

/-- Take the last item, unless there is none. -/
def popBack (d : BoundedDeque α cap) : Option (α × BoundedDeque α cap) :=
  match h : d.items.getLast? with
  | none => none
  | some a => some (a, ⟨d.items.dropLast, by have := d.bound; simp; omega⟩)

/-- A push at the front goes through when there is room. -/
theorem pushFront_of_lt {d : BoundedDeque α cap} (a : α) (h : d.items.length < cap) :
    d.pushFront a = some ⟨a :: d.items, h⟩ := dif_pos h

/-- A push at the back goes through when there is room. -/
theorem pushBack_of_lt {d : BoundedDeque α cap} (a : α) (h : d.items.length < cap) :
    d.pushBack a = some ⟨d.items ++ [a], List.length_append ▸ h⟩ := dif_pos h

/-- A full deque refuses a push at the front. -/
theorem pushFront_of_le {d : BoundedDeque α cap} (a : α) (h : cap ≤ d.items.length) :
    d.pushFront a = none := dif_neg (Nat.not_lt.2 h)

/-- A full deque refuses a push at the back. -/
theorem pushBack_of_le {d : BoundedDeque α cap} (a : α) (h : cap ≤ d.items.length) :
    d.pushBack a = none := dif_neg (Nat.not_lt.2 h)

/-- The empty deque refuses a pop at the front. -/
theorem popFront_of_nil {d : BoundedDeque α cap} (h : d.items = []) : d.popFront = none := by
  obtain ⟨_ | _, _⟩ := d
  · rfl
  · cases h

/-- The empty deque refuses a pop at the back. -/
theorem popBack_of_nil {d : BoundedDeque α cap} (h : d.items = []) : d.popBack = none := by
  unfold popBack
  split
  · rfl
  · simp_all

/-- A pop at the front takes the first item. -/
theorem popFront_of_cons {d : BoundedDeque α cap} {a : α} {l : List α} (h : d.items = a :: l) :
    ∃ d', d.popFront = some (a, d') ∧ d'.items = l := by
  obtain ⟨items, hb⟩ := d
  cases h
  exact ⟨_, rfl, rfl⟩

/-- A pop at the back takes the last item. -/
theorem popBack_of_concat {d : BoundedDeque α cap} {a : α} {l : List α} (h : d.items = l ++ [a]) :
    ∃ d', d.popBack = some (a, d') ∧ d'.items = l := by
  unfold popBack
  split
  · simp_all
  · next b hb =>
    obtain rfl : a = b := by simpa [h] using hb
    exact ⟨_, rfl, by simp [h]⟩

end BoundedDeque
