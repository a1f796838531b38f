import Starrysky.Kqueue.Invariant
import Starrysky.Lib.Transition
import Starrysky.Lib.Split
import Mathlib.Algebra.BigOperators.Fin

/-!
# Queues that share a heap

Any number of queues in one heap, and a client that moves its elements between them: it passes to an
enqueue only what is in its hands, and has in its hands what it never enqueued and what a dequeue
gave back. `SharedOk` is the separation invariant: the rings are those of pairwise disjoint lists
which, with the client's hands, are all the elements there are. A call writes the links of its own
queue and of the element it is passed, so the other rings are framed (`SharedOk.frame`), and the
element changes sides (`Moves.transfer`).
-/

namespace Starrysky.Kqueue

open Transition

/-- Queues `ι` in one heap, and the elements that are in the client's hands. -/
structure Shared (ι : Type) where
  heap : Heap
  ql : ι → QueueList
  hands : Finset Addr

/-- The queue `i` with the common heap. -/
def Shared.queue {ι : Type} (s : Shared ι) (i : ι) : Queue := ⟨s.heap, s.ql i⟩

/-- What the client has in its hands after a call with the given reply. -/
def handsAfter (hands : Finset Addr) (op : Op) : Reply → Finset Addr
  | .code ret => if ret = 0 then hands \ op.node.toFinset else hands
  | .elem ret a => if ret = 0 then insert a hands else hands
  | .len _ => hands

/-- A call on the queue `i`, by a client that passes only elements from its hands. -/
def sharedStep {ι : Type} [DecidableEq ι] (s : Shared ι) : ι × Op → Option (Shared ι)
  | (i, op) =>
    if op.node.toFinset ⊆ s.hands then
      let r := step (s.queue i) op
      some { heap := r.2.heap
             ql := Function.update s.ql i r.2.ql
             hands := handsAfter s.hands op r.1 }
    else none

/-- `queue_init` on each of `k` sentinels, with all elements in the client's hands. -/
def initQueues {k : ℕ} (h₀ : Heap) (head : Fin k → Addr) (m : Fin k → Int32) (elems : Finset Addr) :
    Shared (Fin k) :=
  { heap := (List.finRange k).foldl (fun h i => (queueInit h (head i) (m i)).heap) h₀
    ql := fun i => (queueInit h₀ (head i) (m i)).ql
    hands := elems }

/-- **The separation invariant.** Queue `i` holds the elements `L i`, and the queues and the
client's hands share the elements out among them. -/
structure SharedOk {ι : Type} (head : ι → Addr) (elems : Finset Addr) (s : Shared ι)
    (L : ι → List Addr) : Prop where
  queue : ∀ i, QueueOk (s.queue i) (L i)
  sentinel : ∀ i, (s.ql i).head = head i
  split : Split elems s.hands L

variable {ι : Type} {head : ι → Addr} {elems : Finset Addr} {s t : Shared ι} {L : ι → List Addr}
  {i j : ι} {op : Op} {a : Addr}

/-- How a call moves elements between a queue and the client: out of the hands, into the hands, or
not at all. -/
theorem Moves.transfer {cap : ℕ} {l l' : List Addr} {r : Reply} (h : Moves cap l op r l') :
    (∃ n, op.node = [n] ∧ (∀ hands, handsAfter hands op r = hands \ {n}) ∧
        ∀ a, a ∈ l' ↔ a = n ∨ a ∈ l) ∨
      (∃ n, (∀ hands, handsAfter hands op r = insert n hands) ∧ n ∈ l ∧
        (l.Nodup → ∀ a, a ∈ l' ↔ a ∈ l ∧ a ≠ n)) ∨
      (l' = l ∧ ∀ hands, handsAfter hands op r = hands) := by
  cases h with
  | pushFront | pushBack =>
    exact .inl ⟨_, rfl, fun _ => by simp [handsAfter, Op.node], by simp [or_comm]⟩
  | @popFront _ _ n =>
    refine .inr (.inl ⟨n, fun _ => by simp [handsAfter], by simp, fun hnd a => ?_⟩)
    have hn : n ∉ l' := (List.nodup_cons.1 hnd).1
    grind
  | @popBack _ _ n =>
    refine .inr (.inl ⟨n, fun _ => by simp [handsAfter], by simp, fun hnd a => ?_⟩)
    have hn : n ∉ l' := fun h => (List.nodup_append.1 hnd).2.2 n h n (by simp) rfl
    grind
  | fullFront | fullBack | emptyFront | emptyBack | len =>
    exact .inr (.inr ⟨rfl, fun _ => by simp [handsAfter]⟩)

/-- The nodes of the queue `i` and its sentinel, read off the links. -/
theorem SharedOk.linked_iff (ok : SharedOk head elems s L) :
    s.heap.Linked (head i) a ↔ a = head i ∨ a ∈ L i := by
  have := (ok.queue i).linked_iff (a := a)
  simpa [Shared.queue, ok.sentinel] using this

variable [DecidableEq ι]

/-- **Frame.** A call on the queue `i` changes neither the counter and the capacity of another queue
nor any of its links. -/
theorem SharedOk.frame (ok : SharedOk head elems s L) (hinj : Function.Injective head)
    (hhead : ∀ i, head i ∉ elems) (h : sharedStep s (i, op) = some t) (hij : j ≠ i) :
    t.ql j = s.ql j ∧ ∀ a, a = head j ∨ a ∈ L j → s.heap.SameAt t.heap a := by
  rw [sharedStep] at h
  split at h
  · next hop =>
    cases h
    refine ⟨Function.update_of_ne hij _ _, fun a ha => ?_⟩
    have hL : ∀ b k, b ∈ L k → b ∈ elems := fun b k hb => (ok.split.all b).2 (.inr ⟨k, hb⟩)
    refine step_sameAt (ok.queue i) ?_ fun hn => ?_
    · -- a node of one ring is not a node of the other, nor is its sentinel
      rw [Shared.queue, ok.sentinel, List.mem_cons]
      rintro (rfl | hai) <;> rcases ha with hj | haj
      · exact hij (hinj hj).symm
      · exact hhead i (hL _ j haj)
      · exact hhead j (hj ▸ hL _ i hai)
      · exact ok.split.apart i j hij.symm a hai haj
    · -- and what is in the client's hands is in neither ring
      rcases ha with rfl | haj
      · exact hhead j ((ok.split.all _).2 (.inl (hop (List.mem_toFinset.2 hn))))
      · exact ok.split.free a (hop (List.mem_toFinset.2 hn)) j haj
  · cases h

/-- **Step lemma.** A call keeps the separation invariant. -/
theorem SharedOk.step (ok : SharedOk head elems s L) (hinj : Function.Injective head)
    (hhead : ∀ i, head i ∉ elems) (h : sharedStep s (i, op) = some t) :
    ∃ L', SharedOk head elems t L' := by
  have hframe := fun j (hij : j ≠ i) => ok.frame hinj hhead h hij
  rw [sharedStep] at h
  split at h
  case isFalse => cases h
  case isTrue hop =>
  have hOk : op.Ok (s.queue i) := by
    intro n hn hlink
    have hlink := (ok.queue i).linked_iff.1 hlink
    rw [Shared.queue, ok.sentinel, List.mem_cons] at hlink
    rcases hlink with rfl | hlink
    · exact hhead i ((ok.split.all _).2 (.inl (hop (List.mem_toFinset.2 hn))))
    · exact ok.split.free n (hop (List.mem_toFinset.2 hn)) i hlink
  obtain ⟨l', hm, okl⟩ := step_moves (ok.queue i) hOk
  cases h
  refine ⟨Function.update L i l', fun j => ?_, fun j => ?_, ?_⟩
  · by_cases hij : j = i
    · subst hij
      simpa [Shared.queue] using okl
    · obtain ⟨-, hs⟩ := hframe j hij
      have hj := ok.queue j
      have hring := hj.ring.congr fun a ha => hs a (by simpa [Shared.queue, ok.sentinel] using ha)
      refine ⟨?_, ?_, ?_⟩
      · simpa [Shared.queue, hij] using hring
      · simpa [Shared.queue, hij] using hj.cur
      · simpa [Shared.queue, hij] using hj.bound
  · by_cases hij : j = i
    · subst hij
      simpa using (step_head_max (s.queue j) op).1.trans (ok.sentinel j)
    · simpa [hij] using ok.sentinel j
  · rcases hm.transfer with ⟨n, hnode, hhands, hmem⟩ | ⟨n, hhands, hn, hmem⟩ | ⟨rfl, hhands⟩
    · rw [hhands]
      exact ok.split.give (hop (by simp [hnode])) hmem
    · rw [hhands]
      exact ok.split.take hn (hmem (ok.queue i).ring.nodup_nodes)
    · rw [hhands, Function.update_eq_self]
      exact ok.split

/-! ## Every interleaving -/

/-- `queue_init` leaves each of the sentinels pointing at itself both ways. -/
theorem initQueues_heap {k : ℕ} (head : Fin k → Addr) (m : Fin k → Int32) (is : List (Fin k))
    {h : Heap} {a : Addr} (ha : a ∈ is.map head ∨ h.next a = a ∧ h.prev a = a) :
    let h' := is.foldl (fun h i => (queueInit h (head i) (m i)).heap) h
    h'.next a = a ∧ h'.prev a = a := by
  induction is generalizing h with
  | nil => simpa using ha
  | cons i is ih =>
    refine ih ?_
    by_cases hi : a = head i
    · exact .inr (by simp [queueInit, initListHead, hi])
    · simpa [queueInit, initListHead, hi] using ha

theorem initQueues_ok {k : ℕ} (h₀ : Heap) (head : Fin k → Addr) (m : Fin k → Int32)
    (elems : Finset Addr) :
    SharedOk head elems (initQueues h₀ head m elems) fun _ => [] := by
  refine ⟨fun i => ⟨?_, rfl, Nat.zero_le _⟩, fun _ => rfl, Split.start⟩
  obtain ⟨hn, hp⟩ := initQueues_heap head m (List.finRange k) (h := h₀)
    (.inl (List.mem_map_of_mem (List.mem_finRange i)))
  exact LinkRing.nil hn hp

/-- **Run lemma.** Every interleaving of calls keeps the separation invariant. -/
theorem reachable_sharedOk {k : ℕ} {h₀ : Heap} {head : Fin k → Addr} {m : Fin k → Int32}
    {elems : Finset Addr} {calls : List (Fin k × Op)} {s : Shared (Fin k)}
    (hinj : Function.Injective head) (hhead : ∀ i, head i ∉ elems)
    (hrun : exec sharedStep (initQueues h₀ head m elems) calls = some s) :
    ∃ L, SharedOk head elems s L := by
  refine exec_induction (P := fun _ s => ∃ L, SharedOk head elems s L)
    ⟨_, initQueues_ok ..⟩ ?_ hrun
  rintro - s ⟨i, op⟩ t - ⟨L, ok⟩ ht
  exact ok.step hinj hhead ht

/-- The position of an element in its queue, read off the links: the number of `next` links to
follow from the node after the sentinel, less than `cur`. -/
def At {ι : Type} (head : ι → Addr) (s : Shared ι) (e : Addr) (p : ι × ℕ) : Prop :=
  (p.2 : ℤ) < (s.ql p.1).cur.toInt ∧ s.heap.next^[p.2 + 1] (head p.1) = e

theorem SharedOk.at_iff {ι : Type} {head : ι → Addr} {elems : Finset Addr} {s : Shared ι}
    {L : ι → List Addr} {e : Addr} {p : ι × ℕ} (ok : SharedOk head elems s L) :
    At head s e p ↔ (L p.1)[p.2]? = some e := by
  have hq := ok.queue p.1
  have hcur : (s.ql p.1).cur.toInt = (L p.1).length := hq.cur
  rw [At, hcur, Int.ofNat_lt, List.getElem?_eq_some_iff, ← ok.sentinel]
  refine exists_prop.symm.trans (exists_congr fun hi => ?_)
  rw [← hq.ring.iterate_next hi]
  rfl

/-- **Separation.** In every state that an interleaving of calls on the queues reaches, each element
is in the client's hands and in no queue or at exactly one position of exactly one queue; the
counters and the elements in the client's hands add up to the elements there are; and a call on one
queue changes no counter, capacity or link of another. -/
theorem separation {k : ℕ} {h₀ : Heap} {head : Fin k → Addr} {m : Fin k → Int32}
    {elems : Finset Addr} {calls : List (Fin k × Op)} {s : Shared (Fin k)}
    (hinj : Function.Injective head) (hhead : ∀ i, head i ∉ elems)
    (hrun : exec sharedStep (initQueues h₀ head m elems) calls = some s) :
    (∀ e ∈ elems, e ∈ s.hands ∧ (∀ i, ¬ s.heap.Linked (head i) e) ∨
      e ∉ s.hands ∧ ∃! p : Fin k × ℕ, At head s e p) ∧
    ∑ i, (s.ql i).cur.toInt + s.hands.card = elems.card ∧
    ∀ i op t, sharedStep s (i, op) = some t → ∀ j, j ≠ i →
      t.ql j = s.ql j ∧ ∀ a, s.heap.Linked (head j) a → s.heap.SameAt t.heap a := by
  obtain ⟨L, ok⟩ := reachable_sharedOk hinj hhead hrun
  have hnd : ∀ i, (L i).Nodup := fun i => (ok.queue i).ring.nodup_nodes
  refine ⟨fun e he => ?_, ?_, fun i op t ht j hij => ?_⟩
  · rcases (ok.split.all e).1 he with hh | ⟨i, hi⟩
    · refine .inl ⟨hh, fun i hlink => ?_⟩
      rcases ok.linked_iff.1 hlink with rfl | hi
      · exact hhead i he
      · exact ok.split.free e hh i hi
    · refine .inr ⟨fun hh => ok.split.free e hh i hi, ?_⟩
      obtain ⟨n, hn⟩ := List.mem_iff_getElem?.1 hi
      refine ⟨(i, n), ok.at_iff.2 hn, ?_⟩
      rintro ⟨j, n'⟩ hp
      have hn' : (L j)[n']? = some e := ok.at_iff.1 hp
      -- no element is in two lists, and none is twice in one
      obtain rfl : j = i := by
        by_contra hij
        exact ok.split.apart j i hij e (List.mem_of_getElem? hn') hi
      have hlt := (List.getElem?_eq_some_iff.1 hn).1
      obtain rfl : n = n' := (List.getElem?_inj hlt (hnd j)).1 (hn.trans hn'.symm)
      rfl
  · have hcur : ∀ i, (s.ql i).cur.toInt = ((L i).length : ℤ) := fun i => (ok.queue i).cur
    simp only [hcur]
    exact_mod_cast ok.split.card hnd
  · obtain ⟨hq, hs⟩ := ok.frame hinj hhead ht hij
    exact ⟨hq, fun a ha => hs a (ok.linked_iff.1 ha)⟩

theorem separation_two_queues :
    ∃ s : Shared (Fin 2),
      exec sharedStep (initQueues ⟨id, id⟩ ![0x8000, 0x9000] ![1, 1] {0x1000, 0x2000})
        [(0, .enqueue 0x1000), (0, .dequeue 0), (1, .enqueueTail 0x1000)] = some s ∧
      ∑ i, (s.ql i).cur.toInt + s.hands.card = 2 := by
  obtain ⟨s, hs⟩ : ∃ s,
      exec sharedStep (initQueues ⟨id, id⟩ ![0x8000, 0x9000] ![1, 1] {0x1000, 0x2000})
        [(0, .enqueue 0x1000), (0, .dequeue 0), (1, .enqueueTail 0x1000)] = some s :=
    Option.isSome_iff_exists.1 (by decide +kernel)
  exact ⟨s, hs, (separation (by decide) (by decide) hs).2.1⟩

end Starrysky.Kqueue
