import Starrysky.Lib.Transition
import Mathlib.Data.Finset.Card
import Mathlib.Logic.Function.Basic

/-!
# The shared value of `misc_1_demo`

`dmisc_write` copies the user's bytes into the global `gval` and then adds 10 to it, and
`dmisc_read` copies `gval` out; there is no lock. The machine interleaves the two steps of any
number of writes of full width with each other and with reads. A write is not atomic, and neither is
the result as if it were (`not_asIfAtomic_overlapping`). What `gval` holds is the value copied last,
and 10 for every increment since, whosesoever they are (`gval_since_copy`).
-/

namespace Starrysky.Misc

open Transition

/-- The global, the processes between the two steps of a `dmisc_write`, and what the latest
`dmisc_read` of each process has returned. -/
structure State (P : Type) where
  gval : Int32
  writing : Finset P
  got : P → Option Int32

inductive Act (P : Type) where
  /-- `copy_from_user(&gval, buf, count)`, with `v` in the user's buffer -/
  | copy (p : P) (v : Int32)
  /-- `gval += 10`, and the write returns -/
  | add (p : P)
  /-- `dmisc_read` -/
  | read (p : P)
  deriving DecidableEq

variable {P : Type}

/-- `static int gval = 0` -/
def State.init : State P := { gval := 0, writing := ∅, got := fun _ => none }

def Act.isAdd : Act P → Bool
  | .add _ => true
  | .copy .. | .read _ => false

/-- The number of increments. -/
def adds (run : List (Act P)) : ℕ := run.countP Act.isAdd

/-- What the run would look like if every call were atomic: a read returns 0 or a value written and
10, and when all writes have completed `gval` holds the value copied last and 10. -/
structure AsIfAtomic (run : List (Act P)) (s : State P) : Prop where
  reads : ∀ p x, s.got p = some x → x = 0 ∨ ∃ q v, .copy q v ∈ run ∧ x = v + 10
  last : s.writing = ∅ → ∀ pre p v post, run = pre ++ .copy p v :: post →
    (∀ q w, .copy q w ∉ post) → s.gval = v + 10

variable [DecidableEq P] {s t u : State P} {run post : List (Act P)}

/-- A step of a process. -/
def step (s : State P) : Act P → Option (State P)
  | .copy p v =>
    if p ∉ s.writing then some { s with gval := v, writing := insert p s.writing } else none
  | .add p =>
    if p ∈ s.writing then some { s with gval := s.gval + 10, writing := s.writing.erase p }
    else none
  | .read p =>
    if p ∉ s.writing then some { s with got := Function.update s.got p (some s.gval) } else none

/-- **Run lemma.** As long as no write copies, `gval` grows by 10 for every write that completes. -/
theorem exec_of_no_copy (h : exec step u post = some s) (hno : ∀ q w, .copy q w ∉ post) :
    s.gval = u.gval + Int32.ofNat (10 * adds post) ∧
      adds post + s.writing.card = u.writing.card := by
  refine exec_induction (P := fun post s => (∀ q w, .copy q w ∉ post) →
    s.gval = u.gval + Int32.ofNat (10 * adds post) ∧ adds post + s.writing.card = u.writing.card)
    ?_ ?_ h hno
  · simp [adds]
  · intro post s a t _ ih hstep hno
    simp only [List.mem_append, List.mem_singleton, not_or] at hno
    obtain ⟨hgval, hcard⟩ := ih fun q w => (hno q w).1
    cases a with
    | copy p v => exact absurd rfl (hno p v).2
    | add p =>
      obtain ⟨hp, ⟨⟩⟩ := Option.ite_none_right_eq_some.1 hstep
      have hadds : adds (post ++ [.add p]) = adds post + 1 := by simp [adds, Act.isAdd]
      have hpos : 0 < s.writing.card := Finset.card_pos.2 ⟨p, hp⟩
      refine ⟨?_, ?_⟩
      · rw [hadds, hgval, Nat.mul_add, Int32.ofNat_add, Int32.add_assoc]
        rfl
      · rw [hadds, Finset.card_erase_of_mem hp]
        omega
    | read p =>
      obtain ⟨-, ⟨⟩⟩ := Option.ite_none_right_eq_some.1 hstep
      have hadds : adds (post ++ [.read p]) = adds post := by simp [adds, Act.isAdd]
      rw [hadds]
      exact ⟨hgval, hcard⟩

/-- **What `gval` holds.** A read returns `gval`. Before any write has copied its value, `gval` is
0. After a copy of `v` that is the latest, `gval` is `v` and 10 for each increment since; there are
as many of these as writes that were under way right after the copy, that write included, and are no
more. -/
theorem gval_since_copy {P : Type} [DecidableEq P] (run : List (Act P)) (s : State P)
    (h : exec step State.init run = some s) :
    (∀ p t, step s (.read p) = some t → t.got p = some s.gval) ∧
      ((∀ p v, .copy p v ∉ run) → s.gval = 0) ∧
      ∀ pre p v post, run = pre ++ .copy p v :: post → (∀ q w, .copy q w ∉ post) →
        ∃ u, exec step State.init (pre ++ [.copy p v]) = some u ∧ p ∈ u.writing ∧
          s.gval = v + Int32.ofNat (10 * adds post) ∧
          adds post + s.writing.card = u.writing.card := by
  refine ⟨?_, ?_, ?_⟩
  · intro p t hstep
    obtain ⟨-, ⟨⟩⟩ := Option.ite_none_right_eq_some.1 hstep
    simp
  · intro hno
    obtain ⟨hgval, hcard⟩ := exec_of_no_copy h hno
    have hadds : adds run = 0 := by
      simp only [State.init, Finset.card_empty] at hcard
      omega
    simpa [hadds, State.init] using hgval
  · rintro pre p v post rfl hno
    rw [List.append_cons] at h
    obtain ⟨u, hu, hpost⟩ := exec_split h
    obtain ⟨u₀, -, hcopy⟩ := exec_concat.1 hu
    obtain ⟨-, ⟨⟩⟩ := Option.ite_none_right_eq_some.1 hcopy
    obtain ⟨hgval, hcard⟩ := exec_of_no_copy hpost hno
    exact ⟨_, hu, Finset.mem_insert_self _ _, hgval, hcard⟩

theorem gval_two_writes :
    ∃ s : State (Fin 2), exec step State.init [.copy 0 1, .copy 1 2, .add 0, .add 1] = some s ∧
      s.gval = 22 := by
  obtain ⟨s, hs⟩ : ∃ s : State (Fin 2),
      exec step State.init [.copy 0 1, .copy 1 2, .add 0, .add 1] = some s := ⟨_, rfl⟩
  obtain ⟨-, -, hcopy⟩ := gval_since_copy _ s hs
  obtain ⟨u, -, -, hgval, -⟩ := hcopy [.copy 0 1] 1 2 [.add 0, .add 1] rfl (by simp)
  exact ⟨s, hs, hgval⟩

/-- A read between the two steps of a write returns the bare value, and two overlapping writes leave
the later value and 20. -/
theorem not_asIfAtomic_overlapping :
    (∃ s : State (Fin 2), exec step State.init [.copy 0 5, .read 1] = some s ∧
      ¬ AsIfAtomic [.copy 0 5, .read 1] s) ∧
    ∃ s : State (Fin 2), exec step State.init [.copy 0 1, .copy 1 2, .add 0, .add 1] = some s ∧
      ¬ AsIfAtomic [.copy 0 1, .copy 1 2, .add 0, .add 1] s := by
  refine ⟨⟨_, rfl, fun h => ?_⟩, _, rfl, fun h => ?_⟩
  · have hread := h.reads 1 5 rfl
    simp at hread
  · have hgval : (22 : Int32) = 2 + 10 := h.last rfl [.copy 0 1] 1 2 [.add 0, .add 1] rfl (by simp)
    exact absurd hgval (by decide)

end Starrysky.Misc
