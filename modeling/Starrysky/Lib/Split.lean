import Mathlib.Data.Finset.Card
import Mathlib.Algebra.BigOperators.Group.Finset.Basic
import Mathlib.Algebra.Order.BigOperators.Group.Finset

/-!
# Items split among lists and a remainder

`Split elems hands L` says that the items `elems` are split, without overlap, into a remainder
`hands` and the lists `L i`. An item may be given to a list (`Split.give`) or taken back from it
(`Split.take`); the items are counted by `Split.card`.
-/

/-- The items `elems` are those of `hands` and those of the lists `L i`, each in one place only. -/
structure Split {ι α : Type*} (elems hands : Finset α) (L : ι → List α) : Prop where
  apart : ∀ i j, i ≠ j → ∀ a ∈ L i, a ∉ L j
  free : ∀ a ∈ hands, ∀ i, a ∉ L i
  all : ∀ a, a ∈ elems ↔ a ∈ hands ∨ ∃ i, a ∈ L i

namespace Split

variable {ι α : Type*} {elems hands : Finset α} {L : ι → List α} {n : α} {l' : List α} {i : ι}

/-- All items in the remainder. -/
theorem start : Split elems elems fun _ : ι => [] :=
  ⟨nofun, nofun, fun _ => by simp⟩

/-- An item of the remainder given to a list. -/
theorem give [DecidableEq α] [DecidableEq ι] (hs : Split elems hands L) (hn : n ∈ hands)
    (hl : ∀ a, a ∈ l' ↔ a = n ∨ a ∈ L i) :
    Split elems (hands \ {n}) (Function.update L i l') := by
  obtain ⟨apart, free, all⟩ := hs
  have hupd : ∀ j a, a ∈ Function.update L i l' j ↔ a ∈ L j ∨ (j = i ∧ a = n) := by
    intro j a
    by_cases hj : j = i
    · subst hj
      simp [hl, or_comm]
    · simp [hj]
  refine ⟨fun j k hjk a => ?_, fun a ha j => ?_, fun a => ?_⟩
  · rw [hupd, hupd]
    grind
  · rw [hupd]
    grind
  · simp only [hupd]
    grind

/-- An item of a list taken back. -/
theorem take [DecidableEq α] [DecidableEq ι] (hs : Split elems hands L) (hn : n ∈ L i)
    (hl : ∀ a, a ∈ l' ↔ a ∈ L i ∧ a ≠ n) :
    Split elems (insert n hands) (Function.update L i l') := by
  obtain ⟨apart, free, all⟩ := hs
  -- `n` was in the list `i` only, so the other lists do not hold it either
  have hupd : ∀ j a, a ∈ Function.update L i l' j ↔ a ∈ L j ∧ a ≠ n := by
    intro j a
    by_cases hj : j = i
    · subst hj
      simp [hl]
    · have hnj : n ∉ L j := apart i j (Ne.symm hj) n hn
      rw [Function.update_of_ne hj]
      grind
  refine ⟨fun j k hjk a => ?_, fun a ha j => ?_, fun a => ?_⟩
  · rw [hupd, hupd]
    grind
  · rw [hupd]
    grind
  · simp only [hupd]
    grind

/-- The items are as many as the lists are long and the remainder is large. -/
theorem card [Fintype ι] (hs : Split elems hands L) (hnd : ∀ i, (L i).Nodup) :
    ∑ i, (L i).length + hands.card = elems.card := by
  classical
  have hdisj : Set.PairwiseDisjoint (Finset.univ : Finset ι) fun i => (L i).toFinset := by
    intro i _ j _ hij
    rw [Function.onFun, Finset.disjoint_left]
    intro a hi hj
    exact hs.apart i j hij a (List.mem_toFinset.1 hi) (List.mem_toFinset.1 hj)
  have hlists : (Finset.univ.biUnion fun i => (L i).toFinset).card = ∑ i, (L i).length := by
    rw [Finset.card_biUnion hdisj]
    exact Finset.sum_congr rfl fun i _ => List.toFinset_card_of_nodup (hnd i)
  have hfree : Disjoint (Finset.univ.biUnion fun i => (L i).toFinset) hands := by
    rw [Finset.disjoint_right]
    intro a ha hmem
    obtain ⟨i, -, hi⟩ := Finset.mem_biUnion.1 hmem
    exact hs.free a ha i (List.mem_toFinset.1 hi)
  rw [← hlists, ← Finset.card_union_of_disjoint hfree]
  congr 1
  ext a
  rw [hs.all a, Finset.mem_union, Finset.mem_biUnion, or_comm]
  simp

end Split
