import Starrysky.Msgqueue.Instance
import Starrysky.Lib.Served
import Starrysky.Lib.Transition
import Mathlib.Data.Fin.VecNotation
import Mathlib.Data.Fintype.Card
import Mathlib.Data.Finset.Dedup
import Mathlib.Logic.Function.Basic

/-!
# Instances of the program, side by side

All instances that are started in one directory share the queue of one key, and their `main`s and
threads interleave. The machine has any number of instances on a queue of any capacity and any first
content. `calls` reads off a run which instances have taken a step, and in which order, and
`ConcurrentOk` is what holds in every run: each instance takes each of its steps at most once, the
texts that are received are, in their order, those that were queued and sent (`Served`), and each
reply stays in the queue. With a queue of unlimited capacity nothing is lost and nobody gets stuck
(`messages_conserved`).
-/

namespace Starrysky.Msgqueue

open MessageQueue ServedQueue Transition

/-- The queue of the key, and the instances. -/
structure Concurrent (ι β : Type) where
  queue : List (Msg β)
  inst : ι → Instance β

variable {ι β : Type}

/-- All instances are started on the queue `q`. -/
def Concurrent.init (q : List (Msg β)) : Concurrent ι β := { queue := q, inst := fun _ => .init }

/-- The text that the thread has received. -/
def Instance.received (i : Instance β) : Option β :=
  match i.thr with
  | .absent | .receive => none
  | .reply buffer | .exit buffer => some buffer

/-- The texts of the messages of type 1. -/
def requests (q : List (Msg β)) : List β := (ofType 1 q).map Msg.text

/-- Those that have taken the step `a`, in the order in which they did. -/
def calls {α : Type} [DecidableEq α] (a : α) (run : List (ι × α)) : List ι :=
  (run.filter fun x => x.2 = a).map (·.1)

variable {cap : Option ℕ} {args : ι → β} {arg : β} {s t : Concurrent ι β} {run : List (ι × Act)}
  {q q' q₀ : List (Msg β)} {a b : Act} {i j : Instance β} {k : ι}

theorem calls_concat {α : Type} [DecidableEq α] {a b : α} {run : List (ι × α)} :
    calls b (run ++ [(k, a)]) = calls b run ++ if a = b then [k] else [] := by
  by_cases hab : a = b <;> simp [calls, List.filter_append, hab]

/-! ## One instance -/

/-- The instance has taken the step. -/
def Instance.Taken (i : Instance β) : Act → Prop
  | .create => i.main ≠ .create
  | .mainSend => i.main = .join ∨ i.main = .done
  | .receive => i.received.isSome
  | .reply => ∃ buffer, i.thr = .exit buffer
  | .join => i.main = .done

/-- The thread exists once it was created, and has ended when it was joined. -/
structure Instance.Ok (i : Instance β) : Prop where
  created : i.thr = .absent ↔ i.main = .create
  joined : i.main = .done → ∃ buffer, i.thr = .exit buffer

/-- **Step lemma** for an instance: it takes a step that it has not taken before. -/
theorem InstSteps.taken (h : InstSteps cap arg i q a j q') (ok : i.Ok) :
    j.Ok ∧ ¬ i.Taken a ∧ ∀ b, j.Taken b ↔ i.Taken b ∨ b = a := by
  cases h with
  | @create thr =>
    obtain rfl : thr = .absent := ok.created.2 rfl
    refine ⟨⟨by simp, by simp⟩, by simp [Instance.Taken], fun b => ?_⟩
    cases b <;> simp [Instance.Taken, Instance.received]
  | @mainSend thr =>
    have hthr : thr ≠ .absent := fun h => by simpa using ok.created.1 h
    refine ⟨⟨by simp [hthr], by simp⟩, by simp [Instance.Taken], fun b => ?_⟩
    cases b <;> simp [Instance.Taken, Instance.received]
  | @receive main =>
    have hmain : main ≠ .create := fun h => by simpa using ok.created.2 h
    have hdone : main ≠ .done := fun h => by simpa using ok.joined h
    refine ⟨⟨by simp [hmain], by simp [hdone]⟩, by simp [Instance.Taken, Instance.received],
      fun b => ?_⟩
    cases b <;> simp [Instance.Taken, Instance.received]
  | @reply main buffer =>
    have hmain : main ≠ .create := fun h => by simpa using ok.created.2 h
    refine ⟨⟨by simp [hmain], fun _ => ⟨buffer, rfl⟩⟩, by simp [Instance.Taken], fun b => ?_⟩
    cases b <;> simp [Instance.Taken, Instance.received]
  | @join buffer =>
    refine ⟨⟨by simp, fun _ => ⟨buffer, rfl⟩⟩, by simp [Instance.Taken], fun b => ?_⟩
    cases b <;> simp [Instance.Taken, Instance.received]

/-- A step appends the text it sends to those that wait, or receives the first of them. -/
theorem InstSteps.serves (h : InstSteps cap arg i q a j q') (ok : i.Ok) :
    Serves (requests q) i.received (if a = .mainSend then [arg] else []) (decide (a = .receive))
      (requests q') j.received := by
  cases h with
  | @create thr =>
    obtain rfl : thr = .absent := ok.created.2 rfl
    exact .pass
  | join => exact .pass
  | mainSend hq =>
    obtain ⟨-, rfl⟩ := msgsnd_eq_some.1 hq
    have htype : ofType 1 (q ++ [message 1 arg]) = ofType 1 q ++ [message 1 arg] :=
      ofType_concat_self rfl
    rw [requests, requests, htype, List.map_append]
    exact .send arg
  | receive hq =>
    obtain ⟨-, htype, -⟩ := ofType_msgrcv hq
    rw [requests, htype]
    exact .take _
  | @reply _ buffer _ _ hq =>
    obtain ⟨-, rfl⟩ := msgsnd_eq_some.1 hq
    have htype : ofType 1 (q ++ [message 2 buffer]) = ofType 1 q :=
      ofType_concat_of_ne (by simp [message])
    rw [requests, requests, htype]
    exact .pass

/-- A reply stays in the queue. -/
theorem InstSteps.replies (h : InstSteps cap arg i q a j q') :
    (ofType 2 q').length = (ofType 2 q).length + if a = .reply then 1 else 0 := by
  cases h with
  | create | join => simp
  | mainSend hq =>
    obtain ⟨-, rfl⟩ := msgsnd_eq_some.1 hq
    have htype : ofType 2 (q ++ [message 1 arg]) = ofType 2 q :=
      ofType_concat_of_ne (by simp [message])
    simp [htype]
  | receive hq =>
    obtain ⟨-, -, htype⟩ := ofType_msgrcv hq
    rw [htype 2 (by decide)]
    simp
  | @reply _ buffer _ _ hq =>
    obtain ⟨-, rfl⟩ := msgsnd_eq_some.1 hq
    have htype : ofType 2 (q ++ [message 2 buffer]) = ofType 2 q ++ [message 2 buffer] :=
      ofType_concat_self rfl
    simp [htype]

/-! ## All instances -/

/-- What holds in every run on a queue that held `q₀` at first: what each instance has done, the
texts received and those that wait, and the replies. -/
structure ConcurrentOk (args : ι → β) (q₀ : List (Msg β)) (run : List (ι × Act))
    (s : Concurrent ι β) : Prop where
  inst : ∀ k, (s.inst k).Ok
  taken : ∀ k a, k ∈ calls a run ↔ (s.inst k).Taken a
  nodup : ∀ a, (calls a run).Nodup
  served : Served (requests q₀ ++ (calls .mainSend run).map args) (calls .receive run)
    (fun k => (s.inst k).received) (requests s.queue)
  replies : (ofType 2 s.queue).length = (ofType 2 q₀).length + (calls .reply run).length

theorem ConcurrentOk.init : ConcurrentOk args q₀ [] (.init q₀ : Concurrent ι β) where
  inst _ := ⟨by simp [Concurrent.init, Instance.init], nofun⟩
  taken _ a := by
    cases a <;> simp [calls, Concurrent.init, Instance.init, Instance.Taken, Instance.received]
  nodup _ := by simp [calls]
  served := by
    have hserved : Served (requests q₀) [] (fun k => ((.init q₀ : Concurrent ι β).inst k).received)
        (requests q₀) := .init fun _ => rfl
    simpa [calls, Concurrent.init] using hserved
  replies := by simp [calls, Concurrent.init]

/-- With a queue that held no message of type 1, every text that was sent was received or waits. -/
theorem ConcurrentOk.sent_eq (ok : ConcurrentOk args q₀ run s) (hq₀ : ∀ m ∈ q₀, m.mtype ≠ 1) :
    (calls .mainSend run).length = (calls .receive run).length + (ofType 1 s.queue).length := by
  have hnone : ofType 1 q₀ = [] := by simpa [ofType] using hq₀
  simpa [requests, hnone] using ok.served.length_eq

variable [DecidableEq ι]

/-- A step of the instance `x.1`, which is given the argument `args x.1`. -/
def concurrentStep (cap : Option ℕ) (args : ι → β) (s : Concurrent ι β) (x : ι × Act) :
    Option (Concurrent ι β) :=
  (instStep cap (args x.1) (s.inst x.1) s.queue x.2).map fun (inst, queue) =>
    { queue, inst := Function.update s.inst x.1 inst }

/-- A step of one instance is its first of that kind, and keeps the order of the texts and the
number of the replies. -/
theorem ConcurrentOk.step {x : ι × Act} (ok : ConcurrentOk args q₀ run s)
    (h : concurrentStep cap args s x = some t) : ConcurrentOk args q₀ (run ++ [x]) t := by
  obtain ⟨k, a⟩ := x
  obtain ⟨⟨j, queue⟩, hinst, rfl⟩ := Option.map_eq_some_iff.1 h
  have hsteps := instSteps_of_instStep hinst
  obtain ⟨hok, hnot, htaken⟩ := hsteps.taken (ok.inst k)
  have hk : k ∉ calls a run := mt (ok.taken k a).1 hnot
  refine ⟨fun l => ?_, fun l b => ?_, fun b => ?_, ?_, ?_⟩
  · by_cases hlk : l = k
    · simpa [hlk] using hok
    · simpa [hlk] using ok.inst l
  · rw [calls_concat, List.mem_append, ok.taken]
    by_cases hlk : l = k
    · subst hlk
      by_cases hab : a = b <;> simp [hab, htaken, eq_comm]
    · by_cases hab : a = b <;> simp [hlk, hab]
  · rw [calls_concat]
    by_cases hab : a = b
    · subst hab
      simpa [List.nodup_append] using ⟨ok.nodup a, fun l hl hlk => hk (hlk ▸ hl)⟩
    · simpa [hab] using ok.nodup b
  · have hserved := ok.served.step (hsteps.serves (ok.inst k))
    have hsent : (if a = .mainSend then [k] else []).map args =
        if a = .mainSend then [args k] else [] := by
      by_cases ha : a = .mainSend <;> simp [ha]
    have hreceived : (fun l => (Function.update s.inst k j l).received) =
        Function.update (fun l => (s.inst l).received) k j.received :=
      Function.comp_update Instance.received s.inst k j
    rw [calls_concat, calls_concat, List.map_append, hsent, hreceived, ← List.append_assoc]
    simpa using hserved
  · have hlength : (if a = .reply then [k] else []).length = if a = .reply then 1 else 0 := by
      by_cases ha : a = .reply <;> simp [ha]
    rw [calls_concat, List.length_append, hlength, hsteps.replies, ok.replies, Nat.add_assoc]

/-- In every run each instance has taken each of its steps at most once, and the texts were received
in their order. -/
theorem reachable_concurrentOk
    (h : exec (concurrentStep cap args) (.init q₀) run = some s) :
    ConcurrentOk args q₀ run s :=
  exec_induction (P := fun run s => ConcurrentOk args q₀ run s) .init
    (fun _ ok hstep => ok.step hstep) h

/-! ## Conservation -/

variable [Fintype ι]

/-- The instances that have taken a step are all of them, or fewer. -/
theorem ConcurrentOk.calls_val (ok : ConcurrentOk args q₀ run s) (h : ∀ k, (s.inst k).Taken a) :
    (calls a run : Multiset ι) = Finset.univ.val := by
  have huniv : (calls a run).toFinset = Finset.univ := by
    ext k
    simp [ok.taken, h]
  rw [← huniv, List.toFinset_val, (ok.nodup a).dedup]

theorem ConcurrentOk.calls_length (ok : ConcurrentOk args q₀ run s)
    (h : ∀ k, (s.inst k).Taken a) : (calls a run).length = Fintype.card ι := by
  have hval := congrArg Multiset.card (ok.calls_val h)
  simpa using hval

theorem ConcurrentOk.calls_length_lt (ok : ConcurrentOk args q₀ run s)
    (h : ¬ (s.inst k).Taken a) : (calls a run).length < Fintype.card ι := by
  have hk : k ∉ (calls a run).toFinset := by simpa [ok.taken] using h
  rw [← List.toFinset_card_of_nodup (ok.nodup a)]
  exact Finset.card_lt_univ_of_notMem hk

/-- **Progress.** As long as an instance has not finished, some step is enabled. -/
theorem ConcurrentOk.exists_step (ok : ConcurrentOk args q₀ run s) (hq₀ : ∀ m ∈ q₀, m.mtype ≠ 1)
    (hk : (s.inst k).main ≠ .done) : ∃ x, (concurrentStep none args s x).isSome := by
  by_contra hno
  have hstuck : ∀ l a, instStep none (args l) (s.inst l) s.queue a = none := by
    intro l a
    have hnone := not_exists.1 hno (l, a)
    simpa [concurrentStep] using hnone
  -- a queue of unlimited capacity takes every message, so that every `main` has sent
  have hsent : ∀ l, (s.inst l).Taken .mainSend := by
    intro l
    cases hmain : (s.inst l).main with
    | create => simpa [instStep, hmain] using hstuck l .create
    | send => simpa [instStep, hmain, msgsnd] using hstuck l .mainSend
    | join => exact .inl hmain
    | done => exact .inr hmain
  have hjoin : (s.inst k).main = .join := (hsent k).resolve_right hk
  have hthr : (s.inst k).thr = .receive := by
    cases hthr : (s.inst k).thr with
    | absent => simpa [hjoin] using (ok.inst k).created.1 hthr
    | receive => rfl
    | reply buffer => simpa [instStep, hthr, msgsnd] using hstuck k .reply
    | exit buffer => simpa [instStep, hjoin, hthr] using hstuck k .join
  -- and one thread has not received, so that a text waits for it
  have hlt := ok.calls_length_lt (a := .receive) (k := k) (by
    simp [Instance.Taken, Instance.received, hthr])
  have hcount := ok.sent_eq hq₀
  rw [ok.calls_length hsent] at hcount
  have hwaits : ofType 1 s.queue ≠ [] := by
    rintro hnil
    rw [hnil] at hcount
    simp at hcount
    omega
  have hreceive : msgrcv 1 s.queue = none := by
    simpa [instStep, hthr] using hstuck k .receive
  simpa [hreceive] using msgrcv_isSome.2 hwaits

/-- When all instances have finished, each text that was sent was received, none waits, and the
replies have been added. -/
theorem ConcurrentOk.finished (ok : ConcurrentOk args q₀ run s) (hq₀ : ∀ m ∈ q₀, m.mtype ≠ 1)
    (hdone : ∀ k, (s.inst k).main = .done) :
    Finset.univ.val.map (fun k => (s.inst k).received) =
        Finset.univ.val.map (fun k => some (args k)) ∧
      ofType 1 s.queue = [] ∧
      (ofType 2 s.queue).length = (ofType 2 q₀).length + Fintype.card ι := by
  have hexit : ∀ k, ∃ buffer, (s.inst k).thr = .exit buffer := fun k => (ok.inst k).joined (hdone k)
  have hsent : ∀ k, (s.inst k).Taken .mainSend := fun k => .inr (hdone k)
  have hreceived : ∀ k, (s.inst k).Taken .receive := by
    intro k
    obtain ⟨buffer, hthr⟩ := hexit k
    simp [Instance.Taken, Instance.received, hthr]
  have hnone : ofType 1 s.queue = [] := by
    have hcount := ok.sent_eq hq₀
    rw [ok.calls_length hsent, ok.calls_length hreceived] at hcount
    exact List.length_eq_zero_iff.1 (by omega)
  refine ⟨?_, hnone, ?_⟩
  · have horder := ok.served.order
    have hnone₀ : ofType 1 q₀ = [] := by simpa [ofType] using hq₀
    simp only [requests, hnone, hnone₀, List.map_nil, List.nil_append, List.append_nil,
      List.map_map] at horder
    rw [← ok.calls_val hreceived, Multiset.map_coe, ← horder, ok.calls_val hreceived,
      ← ok.calls_val hsent, Multiset.map_coe]
    rfl
  · rw [ok.replies, ok.calls_length (a := .reply) hexit]

/-- **No message is lost or duplicated, and nobody gets stuck.** In every run of any number of
instances on a queue of unlimited capacity that held no message of type 1: the texts sent are as
many as those received and those that wait, a thread receives messages of type 1 only, some step is
enabled until all instances have finished, and then the texts received are those that were sent,
none waits, and each instance has added a message of type 2. -/
theorem messages_conserved {ι β : Type} [Fintype ι] [DecidableEq ι] (args : ι → β)
    (q₀ : List (Msg β)) (hq₀ : ∀ m ∈ q₀, m.mtype ≠ 1) (run : List (ι × Act)) (s : Concurrent ι β)
    (h : exec (concurrentStep none args) (.init q₀) run = some s) :
    (calls .mainSend run).length = (calls .receive run).length + (ofType 1 s.queue).length ∧
      (∀ k t, concurrentStep none args s (k, .receive) = some t →
        ∃ m, msgrcv 1 s.queue = some (m, t.queue) ∧ m.mtype = 1 ∧
          (t.inst k).received = some m.text) ∧
      ((∃ k, (s.inst k).main ≠ .done) → ∃ x, (concurrentStep none args s x).isSome) ∧
      ((∀ k, (s.inst k).main = .done) →
        Finset.univ.val.map (fun k => (s.inst k).received) =
            Finset.univ.val.map (fun k => some (args k)) ∧
          ofType 1 s.queue = [] ∧
          (ofType 2 s.queue).length = (ofType 2 q₀).length + Fintype.card ι) := by
  have ok := reachable_concurrentOk h
  refine ⟨ok.sent_eq hq₀, ?_, ?_, ok.finished hq₀⟩
  · intro k t ht
    obtain ⟨⟨j, queue⟩, hinst, rfl⟩ := Option.map_eq_some_iff.1 ht
    have hsteps := instSteps_of_instStep hinst
    dsimp only at hsteps ⊢
    generalize s.inst k = i at hsteps
    cases hsteps with
    | @receive _ m _ _ hq =>
      exact ⟨m, hq, (ofType_msgrcv hq).1, by simp [Instance.received]⟩
  · rintro ⟨k, hk⟩
    exact ok.exists_step hq₀ hk

theorem messages_conserved_crossed :
    ∃ s : Concurrent (Fin 2) ℕ, exec (concurrentStep none ![10, 20]) (.init [])
        [(0, .create), (1, .create), (0, .mainSend), (1, .receive), (1, .mainSend), (1, .reply),
          (0, .receive), (0, .reply), (0, .join), (1, .join)] = some s ∧
      (ofType 2 s.queue).length = 2 := by
  obtain ⟨s, hs, hdone⟩ : ∃ s, exec (concurrentStep none ![10, 20]) (.init [])
      [(0, .create), (1, .create), (0, .mainSend), (1, .receive), (1, .mainSend), (1, .reply),
        (0, .receive), (0, .reply), (0, .join), (1, .join)] = some s ∧
      ∀ k : Fin 2, (s.inst k).main = .done := ⟨_, rfl, by decide⟩
  obtain ⟨-, -, -, hfinished⟩ := messages_conserved ![10, 20] [] (by simp) _ s hs
  exact ⟨s, hs, (hfinished hdone).2.2⟩

end Starrysky.Msgqueue
