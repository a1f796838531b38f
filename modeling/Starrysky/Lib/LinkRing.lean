import Mathlib.Logic.Function.Iterate
import Mathlib.Data.List.Nodup

/-!
# Circular doubly linked lists

Nodes are linked by two maps `next` and `prev` over an arbitrary type of addresses. `Seg` says that
a list of nodes leads from one address to another along both maps, and `LinkRing` that a list leads
from a sentinel back to it, all of its nodes and the sentinel being distinct.

The edits are stated of any two pairs of maps that agree off the written nodes, so that they cover
every order in which a program may write the links: `pushFront` and `popFront` at the front, and
`pushBack` and `popBack` as their mirror images, since a ring read along `prev` is the ring of the
reversed list (`LinkRing.reverse`). A ring is moved across writes elsewhere by `LinkRing.congr`, and
its nodes are what its maps reach from the sentinel (`LinkRing.reach_iff`, `LinkRing.iterate_next`).
-/

variable {α : Type*} {next prev next' prev' : α → α} {a b h n x : α} {l l₁ l₂ : List α}

/-- The nodes `l` lead from `a` to `b`: along `next` from `a`, and along `prev` from `b`. -/
def Seg (next prev : α → α) : α → List α → α → Prop
  | a, [], b => next a = b ∧ prev b = a
  | a, x :: l, b => (next a = x ∧ prev x = a) ∧ Seg next prev x l b

/-- The nodes `l` form the ring of the sentinel `h`. -/
structure LinkRing (next prev : α → α) (h : α) (l : List α) : Prop where
  nodup : (h :: l).Nodup
  seg : Seg next prev h l h

/-! ## Segments -/

@[simp] theorem seg_nil : Seg next prev a [] b ↔ next a = b ∧ prev b = a := Iff.rfl
@[simp] theorem seg_cons :
    Seg next prev a (x :: l) b ↔ (next a = x ∧ prev x = a) ∧ Seg next prev x l b := Iff.rfl

/-- A segment reads `next` at its start and its nodes, and `prev` at its nodes and its end. -/
theorem Seg.congr (hs : Seg next prev a l b) (hn : ∀ x ∈ a :: l, next' x = next x)
    (hp : ∀ y ∈ l ++ [b], prev' y = prev y) : Seg next' prev' a l b := by
  induction l generalizing a with
  | nil => exact ⟨(hn a (by simp)).trans hs.1, (hp b (by simp)).trans hs.2⟩
  | cons x l ih =>
    obtain ⟨⟨h1, h2⟩, hs⟩ := hs
    refine ⟨⟨(hn a (by simp)).trans h1, (hp x (by simp)).trans h2⟩, ih hs ?_ ?_⟩
    · exact fun y hy => hn y (List.mem_cons_of_mem _ hy)
    · exact fun y hy => hp y (List.mem_cons_of_mem _ hy)

/-- A segment through `x` is one up to `x` and one from it. -/
theorem seg_append :
    Seg next prev a (l₁ ++ x :: l₂) b ↔ Seg next prev a l₁ x ∧ Seg next prev x l₂ b := by
  induction l₁ generalizing a with
  | nil => simp
  | cons y l₁ ih => simp [ih, and_assoc]

/-- A segment read backwards is the segment of the reversed list along the swapped maps. -/
theorem Seg.reverse (hs : Seg next prev a l b) : Seg prev next b l.reverse a := by
  induction l generalizing a with
  | nil => exact hs.symm
  | cons x l ih =>
    rw [List.reverse_cons, seg_append]
    exact ⟨ih hs.2, hs.1.symm⟩

/-- Along a segment `next` stays in it or reaches its end. -/
theorem Seg.next_mem (hs : Seg next prev a l b) (hx : x ∈ a :: l) : next x ∈ l ++ [b] := by
  induction l generalizing a with
  | nil =>
    obtain rfl := List.mem_singleton.1 hx
    simp [hs.1]
  | cons y l ih =>
    rcases List.mem_cons.1 hx with rfl | hx
    · simp [hs.1.1]
    · exact List.mem_cons_of_mem _ (ih hs.2 hx)

/-- `prev` undoes `next` along a segment. -/
theorem Seg.prev_next (hs : Seg next prev a l b) (hx : x ∈ a :: l) : prev (next x) = x := by
  induction l generalizing a with
  | nil =>
    obtain rfl := List.mem_singleton.1 hx
    rw [hs.1, hs.2]
  | cons y l ih =>
    rcases List.mem_cons.1 hx with rfl | hx
    · rw [hs.1.1, hs.1.2]
    · exact ih hs.2 hx

/-- What follows a node of a segment is determined by the list of its nodes. -/
theorem Seg.next_eq (hs : Seg next prev a l b) (hs' : Seg next' prev' a l b) (hx : x ∈ a :: l) :
    next' x = next x := by
  induction l generalizing a with
  | nil =>
    obtain rfl := List.mem_singleton.1 hx
    exact hs'.1.trans hs.1.symm
  | cons y l ih =>
    rcases List.mem_cons.1 hx with rfl | hx
    · exact hs'.1.1.trans hs.1.1.symm
    · exact ih hs.2 hs'.2 hx

/-- The `i + 1`-st node after the start of a segment is its `i`-th node, or its end. -/
theorem Seg.iterate_next (hs : Seg next prev a l b) {i : ℕ} (hi : i < (l ++ [b]).length) :
    next^[i + 1] a = (l ++ [b])[i] := by
  induction l generalizing a i with
  | nil =>
    obtain rfl : i = 0 := by simpa using hi
    exact hs.1
  | cons x l ih =>
    cases i with
    | zero => exact hs.1.1
    | succ i =>
      rw [Function.iterate_succ_apply, hs.1.1]
      exact ih hs.2 (by simpa using hi)

/-! ## Rings -/

namespace LinkRing

/-- The ring of a sentinel that points at itself both ways is empty. -/
theorem nil (hn : next h = h) (hp : prev h = h) : LinkRing next prev h [] :=
  ⟨by simp, hn, hp⟩

/-- A ring read along `prev` is the ring of the reversed list. -/
theorem reverse (hr : LinkRing next prev h l) : LinkRing prev next h l.reverse := by
  refine ⟨?_, hr.seg.reverse⟩
  have := List.nodup_cons.1 hr.nodup
  exact List.nodup_cons.2 ⟨by simpa using this.1, List.nodup_reverse.2 this.2⟩

/-- **Frame.** A ring depends on the links of its sentinel and its nodes only. -/
theorem congr (hr : LinkRing next prev h l) (hn : ∀ x ∈ h :: l, next' x = next x)
    (hp : ∀ x ∈ h :: l, prev' x = prev x) : LinkRing next' prev' h l :=
  ⟨hr.nodup, hr.seg.congr hn fun y hy => hp y (by simpa [or_comm] using hy)⟩

theorem head_notMem (hr : LinkRing next prev h l) : h ∉ l := (List.nodup_cons.1 hr.nodup).1

theorem nodup_nodes (hr : LinkRing next prev h l) : l.Nodup := (List.nodup_cons.1 hr.nodup).2

/-- The first node follows the sentinel. -/
theorem next_head (hr : LinkRing next prev h (n :: l)) : next h = n := hr.seg.1.1

/-- The last node precedes the sentinel. -/
theorem prev_head (hr : LinkRing next prev h (l ++ [n])) : prev h = n :=
  LinkRing.next_head (l := l.reverse) (by simpa using hr.reverse)

/-- The sentinel precedes the first node. -/
theorem prev_front (hr : LinkRing next prev h (n :: l)) : prev n = h := hr.seg.1.2

/-- The sentinel follows the last node. -/
theorem next_back (hr : LinkRing next prev h (l ++ [n])) : next n = h :=
  LinkRing.prev_front (l := l.reverse) (by simpa using hr.reverse)

/-- What follows the first node is not the first node. -/
theorem next_front_ne (hr : LinkRing next prev h (n :: l)) : next n ≠ n := by
  intro e
  have hmem : next n ∈ l ++ [h] := hr.seg.2.next_mem (by simp)
  have hnd := hr.nodup
  grind

/-- What precedes the last node is not the last node. -/
theorem prev_back_ne (hr : LinkRing next prev h (l ++ [n])) : prev n ≠ n :=
  LinkRing.next_front_ne (l := l.reverse) (by simpa using hr.reverse)

theorem next_mem (hr : LinkRing next prev h l) (hx : x ∈ h :: l) : next x ∈ h :: l := by
  have := hr.seg.next_mem hx
  simpa [or_comm] using this

theorem prev_mem (hr : LinkRing next prev h l) (hx : x ∈ h :: l) : prev x ∈ h :: l := by
  simpa using hr.reverse.next_mem (x := x) (by simpa using hx)

theorem prev_next (hr : LinkRing next prev h l) (hx : x ∈ h :: l) : prev (next x) = x :=
  hr.seg.prev_next hx

theorem next_prev (hr : LinkRing next prev h l) (hx : x ∈ h :: l) : next (prev x) = x :=
  hr.reverse.prev_next (by simpa using hx)

/-- A list of nodes has one ring: its links are determined. -/
theorem links_eq (hr : LinkRing next prev h l) (hr' : LinkRing next' prev' h l) (hx : x ∈ h :: l) :
    next' x = next x ∧ prev' x = prev x :=
  ⟨hr.seg.next_eq hr'.seg hx,
    hr.reverse.seg.next_eq hr'.reverse.seg (by simpa using hx)⟩

/-- Following `next` from the sentinel visits the nodes in order. -/
theorem iterate_next (hr : LinkRing next prev h l) {i : ℕ} (hi : i < l.length) :
    next^[i + 1] h = l[i] := by
  rw [hr.seg.iterate_next (by simp; omega), List.getElem_append_left hi]

/-- After its last node the ring is back at the sentinel. -/
theorem iterate_next_length (hr : LinkRing next prev h l) : next^[l.length + 1] h = h := by
  rw [hr.seg.iterate_next (by simp)]
  simp

/-- The nodes of a ring and its sentinel are what `next` reaches from the sentinel. -/
theorem reach_iff (hr : LinkRing next prev h l) : (∃ k, next^[k] h = x) ↔ x ∈ h :: l := by
  constructor
  · rintro ⟨k, rfl⟩
    induction k with
    | zero => simp
    | succ k ih =>
      rw [Function.iterate_succ_apply']
      exact hr.next_mem ih
  · intro hx
    rcases List.mem_cons.1 hx with rfl | hx
    · exact ⟨0, rfl⟩
    · obtain ⟨i, hi, rfl⟩ := List.getElem_of_mem hx
      exact ⟨i + 1, hr.iterate_next hi⟩

/-- A ring that does not leave the nodes `S` has fewer nodes than `S`, as its sentinel is one. -/
theorem length_lt {S : List α} (hr : LinkRing next prev h l) (hmem : h ∈ S)
    (hclosed : ∀ x ∈ S, next x ∈ S) : l.length < S.length := by
  refine hr.nodup.length_le_of_subset fun x hx => ?_
  obtain ⟨k, rfl⟩ := hr.reach_iff.2 hx
  induction k with
  | zero => exact hmem
  | succ k ih =>
    rw [Function.iterate_succ_apply'] at hx ⊢
    exact hclosed _ (ih (hr.reach_iff.1 ⟨k, rfl⟩))

/-! ### Edits at the two ends -/

/-- **Linking a node in at the front.** The new node goes between the sentinel and what followed
it; every other link is kept. -/
theorem pushFront (hr : LinkRing next prev h l) (hnew : n ∉ h :: l) (h1 : next' h = n)
    (h2 : prev' n = h) (h3 : next' n = next h) (h4 : prev' (next h) = n)
    (hn : ∀ x, x ≠ h → x ≠ n → next' x = next x)
    (hp : ∀ y, y ≠ next h → y ≠ n → prev' y = prev y) : LinkRing next' prev' h (n :: l) := by
  obtain ⟨hnh, hnl⟩ : n ≠ h ∧ n ∉ l := by simpa using hnew
  refine ⟨List.nodup_cons.2 ⟨by simpa using ⟨hnh.symm, hr.head_notMem⟩,
    List.nodup_cons.2 ⟨hnl, hr.nodup_nodes⟩⟩, ⟨h1, h2⟩, ?_⟩
  cases l with
  | nil =>
    have hh : next h = h := hr.seg.1
    rw [hh] at h3 h4
    exact ⟨h3, h4⟩
  | cons x l =>
    -- the rest of the ring holds neither of the nodes whose links are written
    have hx : next h = x := hr.next_head
    have hnd := hr.nodup
    rw [hx] at h3 h4 hp
    refine ⟨⟨h3, h4⟩, hr.seg.2.congr (fun y hy => hn y ?_ ?_) (fun y hy => hp y ?_ ?_)⟩ <;>
      grind

/-- **Unlinking the front node.** The sentinel and what followed the node are joined; every other
link, those of the node itself apart, is kept. -/
theorem popFront (hr : LinkRing next prev h (n :: l)) (h1 : next' h = next n)
    (h2 : prev' (next n) = h) (hn : ∀ x, x ≠ h → x ≠ n → next' x = next x)
    (hp : ∀ y, y ≠ next n → y ≠ n → prev' y = prev y) : LinkRing next' prev' h l := by
  have hnd := hr.nodup
  refine ⟨by grind, ?_⟩
  cases l with
  | nil =>
    have hh : next n = h := hr.seg.2.1
    rw [hh] at h1 h2
    exact ⟨h1, h2⟩
  | cons x l =>
    have hx : next n = x := hr.seg.2.1.1
    rw [hx] at h1 h2 hp
    refine ⟨⟨h1, h2⟩, hr.seg.2.2.congr (fun y hy => hn y ?_ ?_) (fun y hy => hp y ?_ ?_)⟩ <;>
      grind

/-- Linking a node in at the back: `pushFront` along the swapped maps. -/
theorem pushBack (hr : LinkRing next prev h l) (hnew : n ∉ h :: l) (h1 : prev' h = n)
    (h2 : next' n = h) (h3 : prev' n = prev h) (h4 : next' (prev h) = n)
    (hn : ∀ x, x ≠ prev h → x ≠ n → next' x = next x)
    (hp : ∀ y, y ≠ h → y ≠ n → prev' y = prev y) : LinkRing next' prev' h (l ++ [n]) := by
  have := (hr.reverse.pushFront (by simpa using hnew) h1 h2 h3 h4 hp hn).reverse
  simpa using this

/-- Unlinking the back node: `popFront` along the swapped maps. -/
theorem popBack (hr : LinkRing next prev h (l ++ [n])) (h1 : prev' h = prev n)
    (h2 : next' (prev n) = h) (hn : ∀ x, x ≠ prev n → x ≠ n → next' x = next x)
    (hp : ∀ y, y ≠ h → y ≠ n → prev' y = prev y) : LinkRing next' prev' h l := by
  have hrev : LinkRing prev next h (n :: l.reverse) := by simpa using hr.reverse
  simpa using (hrev.popFront h1 h2 hp hn).reverse

end LinkRing
