import Mathlib.Data.List.Basic

/-!
# Reactive machines

A machine that answers every call: `f s i` is the reply to the call `i` in the state `s` and the
state after it. `outputs` are the replies to a script of calls and `after` the state it leaves.
`Allowed` says that a client keeps to a calling rule, which may look at the state at every call.
`after_induction` is the invariant rule for such a client, `forall_prefix_iff_allowed` says when the
rule is exact, and `simulation` is the refinement rule: two machines in a relation that every
allowed call keeps, with equal replies, cannot be told apart. In `translation` the second machine
gets other calls, and a part of the replies is compared; `outputs_after_rename` is about a machine
that is another one under other names.
-/

namespace Reactive

variable {σ τ ι ω : Type*} {f : σ → ι → ω × σ} {g : τ → ι → ω × τ} {ok : σ → ι → Prop}

/-- The replies to a script of calls. -/
def outputs (f : σ → ι → ω × σ) : σ → List ι → List ω
  | _, [] => []
  | s, i :: is => (f s i).1 :: outputs f (f s i).2 is

/-- The state a script of calls leaves. -/
def after (f : σ → ι → ω × σ) : σ → List ι → σ
  | s, [] => s
  | s, i :: is => after f (f s i).2 is

/-- Each call of the script keeps to the rule `ok` in the state it is made in. -/
def Allowed (f : σ → ι → ω × σ) (ok : σ → ι → Prop) : σ → List ι → Prop
  | _, [] => True
  | s, i :: is => ok s i ∧ Allowed f ok (f s i).2 is

instance decidableAllowed [∀ s i, Decidable (ok s i)] :
    ∀ s (is : List ι), Decidable (Allowed f ok s is)
  | _, [] => isTrue trivial
  | s, i :: is =>
    have := decidableAllowed (f s i).2 is
    inferInstanceAs (Decidable (ok s i ∧ Allowed f ok (f s i).2 is))

@[simp] theorem outputs_nil (s : σ) : outputs f s [] = [] := rfl
@[simp] theorem outputs_cons (s : σ) (i : ι) (is : List ι) :
    outputs f s (i :: is) = (f s i).1 :: outputs f (f s i).2 is := rfl
@[simp] theorem after_nil (s : σ) : after f s [] = s := rfl
@[simp] theorem after_cons (s : σ) (i : ι) (is : List ι) :
    after f s (i :: is) = after f (f s i).2 is := rfl
@[simp] theorem allowed_nil (s : σ) : Allowed f ok s [] := trivial
@[simp] theorem allowed_cons (s : σ) (i : ι) (is : List ι) :
    Allowed f ok s (i :: is) ↔ ok s i ∧ Allowed f ok (f s i).2 is := Iff.rfl

/-- A client that keeps to the rule in a script keeps to it in the first part of the script. -/
theorem Allowed.left {s : σ} {is js : List ι} (h : Allowed f ok s (is ++ js)) :
    Allowed f ok s is := by
  induction is generalizing s with
  | nil => trivial
  | cons i is ih => exact ⟨h.1, ih h.2⟩

/-- **The invariant rule**: what every allowed call keeps, an allowed script keeps. -/
theorem after_induction {P : σ → Prop} (keep : ∀ s i, P s → ok s i → P (f s i).2)
    {s : σ} {is : List ι} (hs : P s) (his : Allowed f ok s is) : P (after f s is) := by
  induction is generalizing s with
  | nil => exact hs
  | cons i is ih => exact ih (keep s i hs his.1) his.2

/-- **The exact rule**: when a call keeps the invariant exactly if it is allowed, a script keeps it
in every state exactly if the script is. -/
theorem forall_prefix_iff_allowed {P : σ → Prop} (exact : ∀ s i, P s → (P (f s i).2 ↔ ok s i))
    {s : σ} {is : List ι} (hs : P s) :
    (∀ pre, pre <+: is → P (after f s pre)) ↔ Allowed f ok s is := by
  induction is generalizing s with
  | nil => simpa using hs
  | cons i is ih =>
    constructor
    · intro h
      have hnext : P (f s i).2 := h [i] (by simp)
      refine ⟨(exact s i hs).1 hnext, (ih hnext).1 fun pre hpre => ?_⟩
      exact h (i :: pre) (by simpa using hpre)
    · rintro ⟨hi, his⟩ pre hpre
      rcases List.prefix_cons_iff.1 hpre with rfl | ⟨pre, rfl, htail⟩
      · exact hs
      · exact (ih ((exact s i hs).2 hi)).2 his pre htail

/-- A client without a rule keeps to it. -/
theorem allowed_true {s : σ} {is : List ι} : Allowed f (fun _ _ => True) s is := by
  induction is generalizing s with
  | nil => trivial
  | cons i is ih => exact ⟨trivial, ih⟩

/-- **The translation rule**: a machine that is given the calls of a script in translation, `φ`, and
whose relation to the first machine every allowed call keeps, with replies that look the same under
`ρ`, gives replies that look the same and ends in related states. -/
theorem translation {κ ξ : Type*} {g : τ → κ → ω × τ} {R : σ → τ → Prop} (φ : ι → κ) (ρ : ω → ξ)
    (sim : ∀ s t i, R s t → ok s i →
      ρ (f s i).1 = ρ (g t (φ i)).1 ∧ R (f s i).2 (g t (φ i)).2)
    {s : σ} {t : τ} {is : List ι} (hst : R s t) (his : Allowed f ok s is) :
    (outputs f s is).map ρ = (outputs g t (is.map φ)).map ρ ∧
      R (after f s is) (after g t (is.map φ)) := by
  induction is generalizing s t with
  | nil => exact ⟨rfl, hst⟩
  | cons i is ih =>
    obtain ⟨hout, hnext⟩ := sim s t i hst his.1
    obtain ⟨houts, hafter⟩ := ih hnext his.2
    refine ⟨?_, hafter⟩
    rw [List.map_cons, outputs_cons, outputs_cons, List.map_cons, List.map_cons, hout, houts]

/-- **The renaming rule**: a machine that answers a call as another one answers its translation `φ`,
with the reply seen through `ψ`, answers scripts so and leaves the same states. -/
theorem outputs_after_rename {κ ξ : Type*} {f : σ → ι → ξ × σ} {g : σ → κ → ω × σ} (φ : ι → κ)
    (ψ : ω → ξ) (h : ∀ s i, f s i = (ψ (g s (φ i)).1, (g s (φ i)).2)) (s : σ) (is : List ι) :
    outputs f s is = (outputs g s (is.map φ)).map ψ ∧ after f s is = after g s (is.map φ) := by
  induction is generalizing s with
  | nil => exact ⟨rfl, rfl⟩
  | cons i is ih =>
    obtain ⟨houts, hafter⟩ := ih (g s (φ i)).2
    rw [outputs_cons, after_cons, h]
    exact ⟨congrArg _ houts, hafter⟩

/-- A client of such a machine keeps to a rule as a client of the other one does. -/
theorem allowed_rename {κ ξ : Type*} {f : σ → ι → ξ × σ} {g : σ → κ → ω × σ} {ok' : σ → κ → Prop}
    (φ : ι → κ) (h : ∀ s i, (f s i).2 = (g s (φ i)).2) (hok : ∀ s i, ok s i ↔ ok' s (φ i)) {s : σ}
    {is : List ι} : Allowed f ok s is ↔ Allowed g ok' s (is.map φ) := by
  induction is generalizing s with
  | nil => exact Iff.rfl
  | cons i is ih => rw [List.map_cons, allowed_cons, allowed_cons, hok, ih, h]

/-- **The refinement rule**: a relation in which every allowed call gets the same reply, and which
it keeps, makes the replies to an allowed script equal and relates the states it leaves. -/
theorem simulation {R : σ → τ → Prop}
    (sim : ∀ s t i, R s t → ok s i → (f s i).1 = (g t i).1 ∧ R (f s i).2 (g t i).2)
    {s : σ} {t : τ} {is : List ι} (hst : R s t) (his : Allowed f ok s is) :
    outputs f s is = outputs g t is ∧ R (after f s is) (after g t is) := by
  simpa using translation (g := g) id id sim hst his

end Reactive
