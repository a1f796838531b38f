import Starrysky.Lib.Transition

/-!
# Objects that are freed

A transition system whose steps use objects and free some of them. An object is reached when
something leads to it, so that a later step may use it. `safe_iff` is the rule: where a freed object
that is not reached stays so, and one that is reached can be used by some continuation, no state of
a run has a continuation that uses what was freed before it, if and only if no object is reached
when the run frees it.
-/

namespace Transition

/-- What the steps of a system do with objects, and what is reached. -/
structure Lifetime (σ α ι : Type*) where
  freed : σ → ι → Prop
  reached : σ → ι → Prop
  frees : σ → α → ι → Prop
  uses : σ → α → ι → Prop

namespace Lifetime

variable {σ α ι : Type*} {L : Lifetime σ α ι} {step : σ → α → Option σ} {s₀ s t : σ}
  {run more : List α}

/-- The step does not use the object. -/
def NotUsed (L : Lifetime σ α ι) (o : ι) (_ : List α) (s : σ) (a : α) : Prop := ¬ L.uses s a o

/-- The step frees no object that is reached. -/
def Unreached (L : Lifetime σ α ι) (_ : List α) (s : σ) (a : α) : Prop :=
  ∀ o, L.frees s a o → ¬ L.reached s o

/-- Nothing freed is reached. -/
def Clean (L : Lifetime σ α ι) (_ : List α) (s : σ) : Prop := ∀ o, L.freed s o → ¬ L.reached s o

/-- No continuation uses an object that has been freed by now. -/
def Safe (L : Lifetime σ α ι) (step : σ → α → Option σ) (_ : List α) (s : σ) : Prop :=
  ∀ o, L.freed s o → ∀ more t, exec step s more = some t → Meets step s (L.NotUsed o) more

/-- The rules that the steps keep to, in states in which `I` holds. -/
structure Lawful (L : Lifetime σ α ι) (step : σ → α → Option σ) (I : σ → Prop) : Prop where
  keeps : ∀ {s a t}, I s → step s a = some t → I t
  freed_iff : ∀ {s a t o}, I s → step s a = some t →
    (L.freed t o ↔ L.freed s o ∨ L.frees s a o)
  reached_of_uses : ∀ {s a t o}, I s → step s a = some t → L.freed s o → L.uses s a o →
    L.reached s o
  reached_of_step : ∀ {s a t o}, I s → step s a = some t → L.freed s o → L.reached t o →
    L.reached s o
  reached_iff_of_frees : ∀ {s a t o}, I s → step s a = some t → L.frees s a o →
    (L.reached t o ↔ L.reached s o)
  use_of_reached : ∀ {s o}, I s → L.freed s o → L.reached s o →
    ∃ more a t u, exec step s more = some t ∧ step t a = some u ∧ L.uses t a o

variable {I : σ → Prop} {a : α} {o : ι}

/-- A step that frees no object that is reached leaves nothing freed within reach. -/
theorem Clean.keeps (hclean : L.Clean run s) (hL : L.Lawful step I) (hI : I s)
    (hun : L.Unreached run s a) (h : step s a = some t) : L.Clean (run ++ [a]) t := by
  intro o ho hreached
  rcases (hL.freed_iff hI h).1 ho with hfreed | hfrees
  · exact hclean o hfreed (hL.reached_of_step hI h hfreed hreached)
  · exact hun o hfrees ((hL.reached_iff_of_frees hI h hfrees).1 hreached)

/-- A freed object that is not reached is never reached again, whatever else is freed. -/
theorem Lawful.exec_unreached (hL : L.Lawful step I) (hI : I s) (hfreed : L.freed s o)
    (hunreached : ¬ L.reached s o) (h : exec step s more = some t) :
    I t ∧ L.freed t o ∧ ¬ L.reached t o := by
  refine exec_induction (P := fun _ t => I t ∧ L.freed t o ∧ ¬ L.reached t o)
    ⟨hI, hfreed, hunreached⟩ ?_ h
  rintro - u a v - ⟨hIu, hu, hnot⟩ hstep
  refine ⟨hL.keeps hIu hstep, (hL.freed_iff hIu hstep).2 (.inl hu), fun hreached => ?_⟩
  exact hnot (hL.reached_of_step hIu hstep hu hreached)

/-- From a clean state nothing freed is used. -/
theorem Clean.safe (hclean : L.Clean run s) (hL : L.Lawful step I) (hI : I s) :
    L.Safe step run s := by
  rintro o hfreed more t h pre a post u rfl hu huses
  obtain ⟨v, hv, -⟩ := exec_taken h hu
  obtain ⟨hIu, hfreed', hnot⟩ := hL.exec_unreached hI hfreed (hclean o hfreed) hu
  exact hnot (hL.reached_of_uses hIu hv hfreed' huses)

/-- A freed object is still in use as long as it is reached. -/
theorem Safe.clean (hsafe : L.Safe step run s) (hL : L.Lawful step I) (hI : I s) :
    L.Clean run s := by
  intro o hfreed hreached
  obtain ⟨more, a, t, u, hmore, ha, huses⟩ := hL.use_of_reached hI hfreed hreached
  have hrun : exec step s (more ++ [a]) = some u := exec_concat.2 ⟨t, hmore, ha⟩
  exact (hsafe o hfreed _ _ hrun).last hmore huses

/-- **Safety of the freed objects.** Where nothing is freed at first, no state of a run has a
continuation that uses an object freed by then, if and only if the run frees no object that is
reached. -/
theorem safe_iff (hL : L.Lawful step I) (hI : I s₀) (hnone : ∀ o, ¬ L.freed s₀ o)
    (h : exec step s₀ run = some s) :
    Throughout step s₀ (L.Safe step) run ↔ Meets step s₀ L.Unreached run := by
  have hinv : ∀ {pre u}, exec step s₀ pre = some u → I u :=
    exec_induction (P := fun _ u => I u) hI fun _ hI hstep => hL.keeps hI hstep
  refine throughout_iff_meets (Clean.safe (fun o ho => absurd ho (hnone o)) hL hI) ?_ ?_ h
  · intro run s a t hrun hsafe hun hstep
    exact ((hsafe.clean hL (hinv hrun)).keeps hL (hinv hrun) hun hstep).safe hL
      (hL.keeps (hinv hrun) hstep)
  · intro run s a t hrun hstep hsafe o hfrees hreached
    have hI := hinv hrun
    refine hsafe.clean hL (hL.keeps hI hstep) o ((hL.freed_iff hI hstep).2 (.inr hfrees)) ?_
    exact (hL.reached_iff_of_frees hI hstep hfrees).2 hreached

end Lifetime

end Transition
