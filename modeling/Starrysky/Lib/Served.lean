import Mathlib.Data.List.Nodup
import Mathlib.Data.Set.Function
import Mathlib.Logic.Function.Basic

/-!
# A queue that is served in order

Several parties append values to one queue, and each of them takes at most one value off it, the one
that has waited longest. `Serves` is what a party can do to the queue in one step. `Served` relates
the values that have been queued, the parties that have taken one, both in the order in which it
happened, what each party has got, and the values that wait. Every step keeps it (`Served.step`), so
that the party that is the `n`-th to take has got the `n`-th value (`Served.nth`), and if each party
appends one value, each that has taken one can be given the party whose value it was
(`Served.exists_matching`).
-/

namespace ServedQueue

variable {ι γ : Type*}

/-- A step of a party on the values that wait. The party, which has got a value before or not,
appends the values of the second list; the Boolean says whether it takes the oldest value. -/
inductive Serves : List γ → Option γ → List γ → Bool → List γ → Option γ → Prop
  | send {waiting : List γ} {g : Option γ} (x : γ) : Serves waiting g [x] false (waiting ++ [x]) g
  | take {waiting : List γ} (x : γ) : Serves (x :: waiting) none [] true waiting (some x)
  | pass {waiting : List γ} {g : Option γ} : Serves waiting g [] false waiting g

/-- Of the values queued, the first ones were taken in their order, one by each of the takers, and
the others wait. -/
structure Served (queued : List γ) (takers : List ι) (got : ι → Option γ) (waiting : List γ) :
    Prop where
  nodup : takers.Nodup
  mem_iff : ∀ k, k ∈ takers ↔ (got k).isSome
  order : queued.map some = takers.map got ++ waiting.map some

variable {queued new waiting waiting' : List γ} {takers : List ι} {got : ι → Option γ}
  {g g' : Option γ} {takes : Bool} {k : ι} {n : ℕ}

/-- What holds of all values that wait and of those that a step appends holds of those that wait
behind it. -/
theorem Serves.forall_mem {P : γ → Prop} (h : Serves waiting g new takes waiting' g')
    (hwaiting : ∀ y ∈ waiting, P y) (hnew : ∀ y ∈ new, P y) : ∀ y ∈ waiting', P y := by
  cases h with
  | send x =>
    intro y hy
    rcases List.mem_append.1 hy with hy | hy
    · exact hwaiting y hy
    · exact hnew y hy
  | take x => exact fun y hy => hwaiting y (List.mem_cons_of_mem _ hy)
  | pass => exact hwaiting

/-- Before the first step all values wait. -/
theorem Served.init (hgot : ∀ k, got k = none) : Served queued [] got queued :=
  ⟨List.nodup_nil, by simp [hgot], by simp⟩

/-- A step of a party keeps the order. -/
theorem Served.step [DecidableEq ι] (h : Served queued takers got waiting)
    (hserves : Serves waiting (got k) new takes waiting' g) :
    Served (queued ++ new) (takers ++ if takes then [k] else []) (Function.update got k g)
      waiting' := by
  generalize hbefore : got k = g₀ at hserves
  cases hserves with
  | send x =>
    rw [← hbefore, Function.update_eq_self]
    exact ⟨by simpa using h.nodup, by simpa using h.mem_iff, by simp [h.order]⟩
  | pass =>
    rw [← hbefore, Function.update_eq_self]
    exact ⟨by simpa using h.nodup, by simpa using h.mem_iff, by simp [h.order]⟩
  | take x =>
    have hk : k ∉ takers := by simp [h.mem_iff, hbefore]
    have hkept : takers.map (Function.update got k (some x)) = takers.map got := by
      refine List.map_congr_left fun l hl => Function.update_of_ne ?_ _ _
      exact fun hlk => hk (hlk ▸ hl)
    refine ⟨?_, fun l => ?_, ?_⟩
    · simpa [List.nodup_append] using ⟨h.nodup, fun l hl hlk => hk (hlk ▸ hl)⟩
    · by_cases hlk : l = k
      · simp [hlk]
      · simp [hlk, h.mem_iff]
    · simp [h.order, hkept]

/-- **The order of service**: the party that is the `n`-th to take has got the `n`-th value. -/
theorem Served.nth (h : Served queued takers got waiting) (hn : takers[n]? = some k) :
    ∃ x, got k = some x ∧ queued[n]? = some x := by
  obtain ⟨x, hx⟩ := Option.isSome_iff_exists.1 ((h.mem_iff k).1 (List.mem_of_getElem? hn))
  refine ⟨x, hx, ?_⟩
  have hlt : n < takers.length := (List.getElem?_eq_some_iff.1 hn).1
  have hnth : (queued.map some)[n]? = (takers.map got ++ waiting.map some)[n]? :=
    congrArg (·[n]?) h.order
  rw [List.getElem?_append_left (by simpa using hlt), List.getElem?_map, List.getElem?_map, hn]
    at hnth
  simpa [hx] using hnth

/-- The values queued were taken or wait. -/
theorem Served.length_eq (h : Served queued takers got waiting) :
    queued.length = takers.length + waiting.length := by
  simpa using congrArg List.length h.order

/-- Each taker can be given a sender of its own whose value it has got. -/
theorem Served.exists_matching [DecidableEq ι] {senders : List ι} {f : ι → γ}
    (h : Served (senders.map f) takers got waiting) (hsenders : senders.Nodup) :
    ∃ σ : ι → ι, Set.InjOn σ {k | k ∈ takers} ∧
      ∀ k ∈ takers, σ k ∈ senders ∧ got k = some (f (σ k)) := by
  have hlength : takers.length ≤ senders.length := by
    have hlength := h.length_eq
    rw [List.length_map] at hlength
    omega
  have hindex : ∀ k ∈ takers, takers.idxOf k < senders.length := fun k hk =>
    (List.idxOf_lt_length_iff.2 hk).trans_le hlength
  refine ⟨fun k => senders[takers.idxOf k]?.getD k, fun k hk l hl hkl => ?_, fun k hk => ?_⟩
  · simp only [List.getElem?_eq_getElem (hindex k hk), List.getElem?_eq_getElem (hindex l hl),
      Option.getD_some] at hkl
    have hidx : takers.idxOf k = takers.idxOf l := hsenders.getElem_inj_iff.1 hkl
    exact (List.idxOf_inj hk).1 hidx
  · have hlt := hindex k hk
    have htaker : takers[takers.idxOf k]? = some k := by
      rw [List.getElem?_eq_getElem (List.idxOf_lt_length_iff.2 hk), List.getElem_idxOf]
    obtain ⟨x, hx, hnth⟩ := h.nth htaker
    rw [List.getElem?_map, List.getElem?_eq_getElem hlt, Option.map_some,
      Option.some.injEq] at hnth
    simp only [List.getElem?_eq_getElem hlt, Option.getD_some]
    exact ⟨List.getElem_mem _, by rw [hx, hnth]⟩

end ServedQueue
