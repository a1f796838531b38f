import Starrysky.Lib.Transition
import Mathlib.Data.Int.Notation

/-!
# What a run costs

Each step of a transition system costs an integer, which may depend on the state, and `cost` adds up
what the steps of a run cost. `le_add_cost` is the potential method: where no step raises a
potential of the states by more than it costs, no run does.
-/

namespace Transition

variable {σ α : Type*} {step : σ → α → Option σ} {w : σ → α → ℤ}

/-- The cost of the steps that are taken. -/
def cost (step : σ → α → Option σ) (w : σ → α → ℤ) : σ → List α → ℤ
  | _, [] => 0
  | s, a :: as =>
    match step s a with
    | none => 0
    | some t => w s a + cost step w t as

@[simp] theorem cost_nil (s : σ) : cost step w s [] = 0 := rfl

theorem cost_cons {s t : σ} {a : α} {as : List α} (h : step s a = some t) :
    cost step w s (a :: as) = w s a + cost step w t as := by
  simp [cost, h]

theorem cost_append {s t : σ} {as bs : List α} (h : exec step s as = some t) :
    cost step w s (as ++ bs) = cost step w s as + cost step w t bs := by
  induction as generalizing s with
  | nil =>
    cases h
    simp
  | cons a as ih =>
    obtain ⟨u, hu, h⟩ := Option.bind_eq_some_iff.1 h
    rw [List.cons_append, cost_cons hu, cost_cons hu, ih h, Int.add_assoc]

/-- **The potential method.** Under a condition that keeps an invariant, let no step raise the
potential by more than it costs. Then no run whose steps meet the condition does. -/
theorem le_add_cost {potential : σ → ℤ} {I : σ → Prop} {C : List α → σ → α → Prop}
    (hstep : ∀ {as s a t}, I s → C as s a → step s a = some t →
      I t ∧ potential t ≤ potential s + w s a)
    {s t : σ} {as : List α} (hI : I s) (hC : Meets step s C as) (h : exec step s as = some t) :
    I t ∧ potential t ≤ potential s + cost step w s as := by
  induction as generalizing s C with
  | nil =>
    cases h
    simpa using hI
  | cons a as ih =>
    obtain ⟨u, hu, h⟩ := Option.bind_eq_some_iff.1 h
    obtain ⟨hmeets, hrest⟩ := meets_cons.1 hC
    obtain ⟨hIu, hle⟩ := hstep hI hmeets hu
    obtain ⟨hIt, hcost⟩ := ih (fun hI hC => hstep hI hC) hIu (hrest u hu) h
    refine ⟨hIt, ?_⟩
    rw [cost_cons hu]
    omega

end Transition
