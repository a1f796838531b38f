import Mathlib.Data.List.DropRight
import Mathlib.Data.List.Induction

/-!
# Runs of a transition system

A system is a step function `σ → α → Option σ`: from a state an action is either not enabled
(`none`) or leads to one state, so the scheduler's choices are the list of actions alone. `exec`
runs such a list. The rules below speak of a run together with its history: `exec_induction` is the
invariant rule, `Meets` says that every step of a run is taken under a side condition, and
`Throughout` that a property holds in every state the run goes through. `throughout_iff_meets`
closes the two into an equivalence when the condition is exactly what the property needs.
`exec_flatMap` is about a coarser system, an action of which is several of a finer one's; where
they depend on the state, `log` collects them. `since` speaks of the part of a history that follows
the latest occurrence of an action.
-/

namespace Transition

variable {σ α : Type*} {step : σ → α → Option σ} {s₀ : σ}

/-- The state a list of actions leads to, when each of them is enabled in its turn. -/
def exec (step : σ → α → Option σ) : σ → List α → Option σ
  | s, [] => some s
  | s, a :: as => (step s a).bind fun t => exec step t as

@[simp] theorem exec_nil (s : σ) : exec step s [] = some s := rfl

@[simp] theorem exec_cons (s : σ) (a : α) (as : List α) :
    exec step s (a :: as) = (step s a).bind fun t => exec step t as := rfl

/-- A run is a run of its first part followed by a run of the rest. -/
theorem exec_append (s : σ) (as bs : List α) :
    exec step s (as ++ bs) = (exec step s as).bind fun t => exec step t bs := by
  induction as generalizing s with
  | nil => rfl
  | cons a as ih =>
    cases h : step s a with
    | none => simp [h]
    | some t => simp [h, ih]

/-- The last step of a run, taken apart from what precedes it. -/
theorem exec_concat {s t : σ} {as : List α} {a : α} :
    exec step s (as ++ [a]) = some t ↔ ∃ u, exec step s as = some u ∧ step u a = some t := by
  rw [exec_append, Option.bind_eq_some_iff]
  simp

/-- A run can be cut anywhere. -/
theorem exec_split {s u : σ} {as bs : List α} (h : exec step s (as ++ bs) = some u) :
    ∃ t, exec step s as = some t ∧ exec step t bs = some u := by
  rwa [exec_append, Option.bind_eq_some_iff] at h

/-- A run goes on where another one ends. -/
theorem exec_join {s t u : σ} {as bs : List α} (h : exec step s as = some t)
    (h' : exec step t bs = some u) : exec step s (as ++ bs) = some u := by
  rw [exec_append, h]
  exact h'

/-- Every step that a run goes through is taken. -/
theorem exec_taken {s t : σ} {as bs : List α} {a : α} (h : exec step s₀ (as ++ a :: bs) = some t)
    (hs : exec step s₀ as = some s) :
    ∃ u, step s a = some u ∧ exec step s₀ (as ++ [a]) = some u := by
  obtain ⟨s', hs', hrest⟩ := exec_split h
  cases hs.symm.trans hs'
  obtain ⟨u, hu, -⟩ := Option.bind_eq_some_iff.1 hrest
  exact ⟨u, hu, exec_concat.2 ⟨s, hs, hu⟩⟩

/-- **The invariant rule.** What holds at the start and is kept by every step of a run holds, of
the run so far and the state it has reached, at the end. -/
theorem exec_induction {P : List α → σ → Prop} (nil : P [] s₀)
    (snoc : ∀ {as s a t}, exec step s₀ as = some s → P as s → step s a = some t →
      P (as ++ [a]) t) {as : List α} {s : σ} (h : exec step s₀ as = some s) : P as s := by
  induction as using List.reverseRecOn generalizing s with
  | nil => cases h; exact nil
  | append_singleton as a ih =>
    obtain ⟨u, hu, hs⟩ := exec_concat.1 h
    exact snoc hu (ih hu) hs

/-- Every step of the run is taken under the condition `C` on the run so far, the state and the
action. -/
def Meets (step : σ → α → Option σ) (s₀ : σ) (C : List α → σ → α → Prop) (as : List α) : Prop :=
  ∀ pre a post s, as = pre ++ a :: post → exec step s₀ pre = some s → C pre s a

/-- `P` holds in every state the run goes through, the first and the last included. -/
def Throughout (step : σ → α → Option σ) (s₀ : σ) (P : List α → σ → Prop) (as : List α) : Prop :=
  ∀ pre post s, as = pre ++ post → exec step s₀ pre = some s → P pre s

/-- What precedes the end of a run meets what the run meets. -/
theorem Meets.left {C : List α → σ → α → Prop} {as bs : List α}
    (h : Meets step s₀ C (as ++ bs)) : Meets step s₀ C as :=
  fun pre a post s hp => h pre a (post ++ bs) s (by rw [hp]; simp)

/-- The condition at the last step of a run. -/
theorem Meets.last {C : List α → σ → α → Prop} {as : List α} {a : α} {s : σ}
    (h : Meets step s₀ C (as ++ [a])) (hs : exec step s₀ as = some s) : C as s a :=
  h as a [] s rfl hs

/-- **The invariant rule under a condition**: as `exec_induction`, of a run whose steps all meet
the condition. -/
theorem Meets.induction {C : List α → σ → α → Prop} {P : List α → σ → Prop} (nil : P [] s₀)
    (snoc : ∀ {as s a t}, exec step s₀ as = some s → P as s → C as s a → step s a = some t →
      P (as ++ [a]) t) {as : List α} {s : σ} (hC : Meets step s₀ C as)
    (h : exec step s₀ as = some s) : P as s := by
  induction as using List.reverseRecOn generalizing s with
  | nil => cases h; exact nil
  | append_singleton as a ih =>
    obtain ⟨u, hu, hs⟩ := exec_concat.1 h
    exact snoc hu (ih hC.left hu) (hC.last hu) hs

/-- A property kept under the condition holds throughout a run that meets it. -/
theorem Meets.throughout {C : List α → σ → α → Prop} {P : List α → σ → Prop} (nil : P [] s₀)
    (snoc : ∀ {as s a t}, exec step s₀ as = some s → P as s → C as s a → step s a = some t →
      P (as ++ [a]) t) {as : List α} (hC : Meets step s₀ C as) : Throughout step s₀ P as := by
  rintro pre post s rfl hs
  exact hC.left.induction nil snoc hs

/-- **The condition is exact.** When the condition keeps the property, and a step that ends in the
property met the condition, a run has the property throughout if and only if it meets the
condition throughout. -/
theorem throughout_iff_meets {C : List α → σ → α → Prop} {P : List α → σ → Prop} (nil : P [] s₀)
    (keep : ∀ {as s a t}, exec step s₀ as = some s → P as s → C as s a → step s a = some t →
      P (as ++ [a]) t)
    (exact : ∀ {as s a t}, exec step s₀ as = some s → step s a = some t → P (as ++ [a]) t →
      C as s a)
    {as : List α} {s : σ} (h : exec step s₀ as = some s) :
    Throughout step s₀ P as ↔ Meets step s₀ C as := by
  refine ⟨fun hP pre a post u has hu => ?_, fun hC => hC.throughout nil keep⟩
  subst has
  obtain ⟨t, ht, hexec⟩ := exec_taken h hu
  exact exact hu ht (hP (pre ++ [a]) post t (by simp) hexec)

/-- Steps under a condition have a property when an invariant that the condition keeps gives it. -/
theorem Meets.meets {C D : List α → σ → α → Prop} {I : List α → σ → Prop} (nil : I [] s₀)
    (keep : ∀ {as s a t}, exec step s₀ as = some s → I as s → C as s a → step s a = some t →
      I (as ++ [a]) t)
    (hold : ∀ {as s a t}, exec step s₀ as = some s → I as s → C as s a → step s a = some t →
      D as s a)
    {as : List α} {s : σ} (h : exec step s₀ as = some s) (hC : Meets step s₀ C as) :
    Meets step s₀ D as := by
  rintro pre a post u rfl hu
  obtain ⟨t, ht, -⟩ := exec_taken h hu
  exact hold hu (hC.left.induction nil keep hu) (hC pre a post u rfl hu) ht

/-- **A property of steps and its condition.** When an invariant is kept under the condition and
makes a step under the condition have the property, and a step with the property met the condition,
the steps of a run all have the property if and only if they all meet the condition. -/
theorem meets_iff_meets {C D : List α → σ → α → Prop} {I : List α → σ → Prop} (nil : I [] s₀)
    (keep : ∀ {as s a t}, exec step s₀ as = some s → I as s → C as s a → step s a = some t →
      I (as ++ [a]) t)
    (hold : ∀ {as s a t}, exec step s₀ as = some s → I as s → C as s a → step s a = some t →
      D as s a)
    (exact : ∀ {as s a t}, exec step s₀ as = some s → step s a = some t → D as s a → C as s a)
    {as : List α} {s : σ} (h : exec step s₀ as = some s) :
    Meets step s₀ D as ↔ Meets step s₀ C as := by
  refine ⟨?_, Meets.meets nil keep hold h⟩
  rintro hD pre a post u rfl hu
  obtain ⟨t, ht, -⟩ := exec_taken h hu
  exact exact hu ht (hD pre a post u rfl hu)

/-- A property holds throughout a run if it holds throughout what precedes its last step, and of the
whole run. -/
theorem throughout_concat {P : List α → σ → Prop} {as : List α} {a : α}
    (h : Throughout step s₀ P as)
    (hlast : ∀ s, exec step s₀ (as ++ [a]) = some s → P (as ++ [a]) s) :
    Throughout step s₀ P (as ++ [a]) := by
  rintro pre post s has hs
  rcases List.eq_nil_or_concat post with rfl | ⟨post, b, rfl⟩
  · rw [List.append_nil] at has
    subst has
    exact hlast s hs
  · rw [List.concat_eq_append, ← List.append_assoc] at has
    exact h pre post s (List.append_inj_left' has rfl) hs

theorem throughout_and {P Q : List α → σ → Prop} {as : List α} :
    Throughout step s₀ (fun as s => P as s ∧ Q as s) as ↔
      Throughout step s₀ P as ∧ Throughout step s₀ Q as := by
  constructor
  · intro h
    exact ⟨fun pre post s has hs => (h pre post s has hs).1,
      fun pre post s has hs => (h pre post s has hs).2⟩
  · rintro ⟨hP, hQ⟩ pre post s has hs
    exact ⟨hP pre post s has hs, hQ pre post s has hs⟩

/-! ## Deciding a run -/

theorem meets_nil (C : List α → σ → α → Prop) : Meets step s₀ C [] := by
  intro pre a post s h
  simp at h

theorem meets_cons {C : List α → σ → α → Prop} {a : α} {as : List α} :
    Meets step s₀ C (a :: as) ↔
      C [] s₀ a ∧ ∀ t ∈ step s₀ a, Meets step t (fun pre => C (a :: pre)) as := by
  constructor
  · intro h
    refine ⟨h [] a as s₀ rfl rfl, fun t ht pre b post s has hs => ?_⟩
    refine h (a :: pre) b post s (by simp [has]) ?_
    rw [exec_cons, Option.mem_def.1 ht]
    exact hs
  · rintro ⟨h, hrest⟩ pre b post s has hs
    cases pre with
    | nil =>
      cases has
      cases hs
      exact h
    | cons c pre =>
      cases has
      obtain ⟨t, ht, hs⟩ := Option.bind_eq_some_iff.1 hs
      exact hrest t ht pre b post s rfl hs

theorem meets_cons_none {C : List α → σ → α → Prop} {a : α} {as : List α} (h : step s₀ a = none) :
    C [] s₀ a ↔ Meets step s₀ C (a :: as) := by
  simp [meets_cons, h]

theorem meets_cons_some {C : List α → σ → α → Prop} {a : α} {as : List α} {t : σ}
    (h : step s₀ a = some t) : C [] s₀ a ∧ Meets step t (fun pre => C (a :: pre)) as ↔
      Meets step s₀ C (a :: as) := by
  simp [meets_cons, h]

theorem throughout_nil {P : List α → σ → Prop} : Throughout step s₀ P [] ↔ P [] s₀ := by
  constructor
  · intro h
    exact h [] [] s₀ rfl rfl
  · rintro h pre post s has hs
    obtain ⟨rfl, rfl⟩ := List.append_eq_nil_iff.1 has.symm
    cases hs
    exact h

theorem throughout_cons {P : List α → σ → Prop} {a : α} {as : List α} :
    Throughout step s₀ P (a :: as) ↔
      P [] s₀ ∧ ∀ t ∈ step s₀ a, Throughout step t (fun pre => P (a :: pre)) as := by
  constructor
  · intro h
    refine ⟨h [] (a :: as) s₀ rfl rfl, fun t ht pre post s has hs => ?_⟩
    refine h (a :: pre) post s (by simp [has]) ?_
    rw [exec_cons, Option.mem_def.1 ht]
    exact hs
  · rintro ⟨h, hrest⟩ pre post s has hs
    cases pre with
    | nil =>
      cases hs
      exact h
    | cons c pre =>
      cases has
      obtain ⟨t, ht, hs⟩ := Option.bind_eq_some_iff.1 hs
      exact hrest t ht pre post s rfl hs

theorem throughout_cons_none {P : List α → σ → Prop} {a : α} {as : List α}
    (h : step s₀ a = none) : P [] s₀ ↔ Throughout step s₀ P (a :: as) := by
  simp [throughout_cons, h]

theorem throughout_cons_some {P : List α → σ → Prop} {a : α} {as : List α} {t : σ}
    (h : step s₀ a = some t) : P [] s₀ ∧ Throughout step t (fun pre => P (a :: pre)) as ↔
      Throughout step s₀ P (a :: as) := by
  simp [throughout_cons, h]

/-- Whether a run meets a condition is decided by running it. -/
def Meets.decide (step : σ → α → Option σ) : (C : List α → σ → α → Prop) →
    (∀ pre s a, Decidable (C pre s a)) → (s : σ) → (as : List α) → Decidable (Meets step s C as)
  | C, _, _, [] => .isTrue (meets_nil C)
  | C, dec, s, a :: as =>
    have := dec [] s a
    match h : step s a with
    | none => decidable_of_iff _ (meets_cons_none h)
    | some t =>
      have := Meets.decide step (fun pre => C (a :: pre)) (fun pre => dec (a :: pre)) t as
      decidable_of_iff _ (meets_cons_some h)

instance {C : List α → σ → α → Prop} [dec : ∀ pre s a, Decidable (C pre s a)] {as : List α} :
    Decidable (Meets step s₀ C as) :=
  Meets.decide step C dec s₀ as

/-- Whether a property holds throughout a run is decided by running it. -/
def Throughout.decide (step : σ → α → Option σ) : (P : List α → σ → Prop) →
    (∀ pre s, Decidable (P pre s)) → (s : σ) → (as : List α) → Decidable (Throughout step s P as)
  | P, dec, s, [] =>
    have := dec [] s
    decidable_of_iff (P [] s) throughout_nil.symm
  | P, dec, s, a :: as =>
    have := dec [] s
    match h : step s a with
    | none => decidable_of_iff _ (throughout_cons_none h)
    | some t =>
      have := Throughout.decide step (fun pre => P (a :: pre)) (fun pre => dec (a :: pre)) t as
      decidable_of_iff _ (throughout_cons_some h)

instance {P : List α → σ → Prop} [dec : ∀ pre s, Decidable (P pre s)] {as : List α} :
    Decidable (Throughout step s₀ P as) :=
  Throughout.decide step P dec s₀ as

/-! ## Coarser systems -/

/-- A system whose actions are each a sequence of actions of a finer system runs as that system. -/
theorem exec_flatMap {β : Type*} (f : β → List α) (s : σ) (bs : List β) :
    exec (fun s b => exec step s (f b)) s bs = exec step s (bs.flatMap f) := by
  induction bs generalizing s with
  | nil => rfl
  | cons b bs ih => simp [exec_append, ih]

/-- **The simulation rule.** A system follows another through a whole run if, from related states,
it follows each step by a sequence of actions of its own. -/
theorem exec_simulation {τ β : Type*} {step' : τ → β → Option τ} {f : α → List β} {R : σ → τ → Prop}
    (hstep : ∀ {s a s' t}, R s t → step s a = some s' →
      ∃ t', exec step' t (f a) = some t' ∧ R s' t')
    {s s' : σ} {t : τ} {as : List α} (hR : R s t) (h : exec step s as = some s') :
    ∃ t', exec step' t (as.flatMap f) = some t' ∧ R s' t' := by
  induction as generalizing s t with
  | nil =>
    cases h
    exact ⟨t, rfl, hR⟩
  | cons a as ih =>
    obtain ⟨u, hu, h⟩ := Option.bind_eq_some_iff.1 h
    obtain ⟨v, hv, hR⟩ := hstep hR hu
    obtain ⟨t', ht', hR⟩ := ih hR h
    exact ⟨t', by rw [List.flatMap_cons, exec_append, hv]; exact ht', hR⟩

/-- What the steps of a run come to, in the actions of another system. -/
def log {β : Type*} (step : σ → α → Option σ) (f : σ → α → List β) : σ → List α → List β
  | _, [] => []
  | s, a :: as => f s a ++ (step s a).elim [] fun t => log step f t as

/-- **The simulation rule for a log.** As `exec_simulation`, of a run with actions of one kind and
followed by actions that depend on the state. -/
theorem exec_log {τ β : Type*} {step' : τ → β → Option τ} {f : σ → α → List β} {R : σ → τ → Prop}
    {K : α → Prop}
    (hstep : ∀ {s a s' t}, R s t → K a → step s a = some s' →
      ∃ t', exec step' t (f s a) = some t' ∧ R s' t')
    {s s' : σ} {t : τ} {as : List α} (hR : R s t) (hK : ∀ a ∈ as, K a)
    (h : exec step s as = some s') : ∃ t', exec step' t (log step f s as) = some t' ∧ R s' t' := by
  induction as generalizing s t with
  | nil =>
    cases h
    exact ⟨t, rfl, hR⟩
  | cons a as ih =>
    obtain ⟨ha, hK⟩ := List.forall_mem_cons.1 hK
    obtain ⟨u, hu, h⟩ := Option.bind_eq_some_iff.1 h
    obtain ⟨v, hv, hR⟩ := hstep hR ha hu
    obtain ⟨t', ht', hR⟩ := ih hR hK h
    exact ⟨t', by rw [log, hu, exec_append, hv]; exact ht', hR⟩

/-- What a system makes of its actions can be read off them, where each step does what `f` says. -/
theorem foldl_of_exec {ρ : Type*} {g : σ → ρ} {f : ρ → α → ρ}
    (hstep : ∀ {s a t}, step s a = some t → f (g s) a = g t) {s t : σ} {as : List α}
    (h : exec step s as = some t) : as.foldl f (g s) = g t := by
  induction as generalizing s with
  | nil => cases h; rfl
  | cons a as ih =>
    obtain ⟨u, hu, h⟩ := Option.bind_eq_some_iff.1 h
    rw [List.foldl_cons, hstep hu]
    exact ih h

/-- A run of the steps that are taken under a condition is a run that meets it. -/
theorem exec_guard {C : σ → α → Prop} [∀ s a, Decidable (C s a)] {s t : σ} {as : List α} :
    exec (fun s a => if C s a then step s a else none) s as = some t ↔
      exec step s as = some t ∧ Meets step s (fun _ => C) as := by
  induction as generalizing s with
  | nil => simp [meets_nil]
  | cons a as ih =>
    by_cases hC : C s a
    · cases h : step s a with
      | none => simp [hC, h]
      | some u => simp [hC, h, ih, meets_cons]
    · simp [hC, meets_cons]

/-! ## The latest occurrence of an action -/

section Since

variable [DecidableEq α] {a b : α} {as : List α}

/-- The actions that follow the latest `a`; all of them when there is none. -/
def since (a : α) (as : List α) : List α := as.rtakeWhile (· ≠ a)

@[simp] theorem since_nil : since a [] = [] := by
  simp [since]

theorem since_suffix : since a as <:+ as := List.rtakeWhile_suffix _ _

@[simp] theorem since_concat_self : since a (as ++ [a]) = [] := by
  simp [since]

theorem since_concat_of_ne (h : b ≠ a) : since a (as ++ [b]) = since a as ++ [b] := by
  simp [since, h]

theorem since_of_notMem (h : a ∉ as) : since a as = as := by
  rw [since, List.rtakeWhile_eq_self_iff]
  intro b hb
  have : b ≠ a := fun hba => h (hba ▸ hb)
  simpa using this

/-- Of two actions that have occurred, exactly one has the latest occurrence. -/
theorem mem_since_iff (hab : a ≠ b) (ha : a ∈ as) : a ∈ since b as ↔ b ∉ since a as := by
  induction as using List.reverseRecOn with
  | nil => cases ha
  | append_singleton as c ih =>
    by_cases hca : c = a
    · subst hca
      simp [since_concat_of_ne hab]
    by_cases hcb : c = b
    · subst hcb
      simp [since_concat_of_ne hca]
    have ha : a ∈ as := by simpa [Ne.symm hca] using ha
    simpa [since_concat_of_ne hca, since_concat_of_ne hcb, Ne.symm hca, Ne.symm hcb] using ih ha

end Since

end Transition
