import Starrysky.Msgqueue.Instance
import Starrysky.Lib.Transition
import Mathlib.Data.List.Count

/-!
# Runs of the program, one after another

Each run of `msgqueue` leaves the reply of its thread in the queue, since nobody receives messages
of type 2. The machine runs the program any number of times on one queue, which is empty at first.
No completed run leaves the queue as it found it (`leaves_iff`), and when as many runs have
completed as the capacity holds messages, the next one deadlocks (`deadlocked_iff`,
`deadlock_reachable`).
-/

namespace Starrysky.Msgqueue

open MessageQueue Transition

variable {β : Type}

/-- The queue, the number of runs that have completed, and the current run. -/
structure Serial (β : Type) where
  queue : List (Msg β)
  completed : ℕ
  inst : Instance β

def Serial.init : Serial β := { queue := [], completed := 0, inst := .init }

/-- A step of the current run, which is given the argument `args s.completed`. When its `main` has
returned, the program can be started again. -/
def serialStep (cap : ℕ) (args : ℕ → β) (s : Serial β) (a : Act) : Option (Serial β) :=
  (instStep (some cap) (args s.completed) s.inst s.queue a).map fun (inst, queue) =>
    if inst.main = .done then { queue, completed := s.completed + 1, inst := .init }
    else { queue, completed := s.completed, inst }

/-- What the completed runs have left in the queue. -/
def replies (args : ℕ → β) (n : ℕ) : List (Msg β) := (List.range n).map fun k => message 2 (args k)

/-- `main` is blocked in `msgsnd` on a full queue while its thread is blocked in `msgrcv` of type 1.
-/
def Deadlocked (cap : ℕ) (args : ℕ → β) (_ : List Act) (s : Serial β) : Prop :=
  s.inst = ⟨.send, .receive⟩ ∧ msgsnd (some cap) s.queue (message 1 (args s.completed)) = none ∧
    msgrcv 1 s.queue = none

/-- A run that has just completed has left the queue as it found it when it was started. -/
def LeavesAsFound (cap : ℕ) (args : ℕ → β) (run : List Act) (s : Serial β) : Prop :=
  ∀ pre mid u, run = pre ++ .create :: (mid ++ [.join]) → .join ∉ mid →
    exec (serialStep cap args) .init pre = some u → s.queue = u.queue

variable {cap n : ℕ} {args : ℕ → β} {s t : Serial β} {run : List Act} {a : Act}

/-! ## The queue -/

theorem replies_succ : replies args (n + 1) = replies args n ++ [message 2 (args n)] := by
  simp [replies, List.range_succ]

@[simp] theorem replies_length : (replies args n).length = n := by
  simp [replies]

@[simp] theorem bytes_replies : bytes (replies args n) = n * sizeofMsgtype := by
  induction n with
  | zero => simp [replies, bytes]
  | succ n ih => simp [replies_succ, bytes_concat, ih, message, Nat.add_mul]

theorem mtype_of_mem_replies {m : Msg β} (h : m ∈ replies args n) : m.mtype ≠ 1 := by
  obtain ⟨k, -, rfl⟩ := List.mem_map.1 h
  simp [message]

/-- Where the current run stands, and what the queue holds then, after `n` completed runs. -/
inductive Inside (args : ℕ → β) (n : ℕ) : Instance β → List (Msg β) → Prop
  | create : Inside args n .init (replies args n)
  | started : Inside args n ⟨.send, .receive⟩ (replies args n)
  | sent : Inside args n ⟨.join, .receive⟩ (replies args n ++ [message 1 (args n)])
  | received : Inside args n ⟨.join, .reply (args n)⟩ (replies args n)
  | replied : Inside args n ⟨.join, .exit (args n)⟩ (replies args (n + 1))

/-- What holds in every state of the runs. -/
structure SerialOk (args : ℕ → β) (run : List Act) (s : Serial β) : Prop where
  inside : Inside args s.completed s.inst s.queue
  completed : s.completed = run.count .join
  started : s.inst.main ≠ .create → ∃ pre mid, run = pre ++ .create :: mid ∧ .join ∉ mid

/-- A step keeps the queue to the replies of the completed runs and what the present run has added.
-/
theorem SerialOk.step (ok : SerialOk args run s) (h : serialStep cap args s a = some t) :
    SerialOk args (run ++ [a]) t := by
  obtain ⟨⟨inst, q⟩, hinst, rfl⟩ := Option.map_eq_some_iff.1 h
  obtain ⟨queue, completed, i⟩ := s
  obtain ⟨hinside, hcompleted, hstarted⟩ := ok
  dsimp only at hinst hinside hcompleted hstarted
  have hgo : i.main ≠ .create → a ≠ .join →
      ∃ pre mid, run ++ [a] = pre ++ .create :: mid ∧ .join ∉ mid := by
    intro hmain hne
    obtain ⟨pre, mid, rfl, hmid⟩ := hstarted hmain
    exact ⟨pre, mid ++ [a], by simp, by simp [hmid, Ne.symm hne]⟩
  cases instSteps_of_instStep hinst with
  | create =>
    cases hinside with
    | create =>
      refine ⟨.started, by simpa using hcompleted, fun _ => ⟨run, [], rfl, by simp⟩⟩
  | mainSend hq =>
    cases hinside with
    | started =>
      obtain ⟨-, rfl⟩ := msgsnd_eq_some.1 hq
      exact ⟨.sent, by simpa using hcompleted, fun _ => hgo (by simp) (by simp)⟩
  | receive hq =>
    cases hinside with
    | started =>
      rw [msgrcv_eq_none.2 fun m => mtype_of_mem_replies] at hq
      cases hq
    | sent =>
      rw [msgrcv_concat (fun m => mtype_of_mem_replies) rfl] at hq
      cases hq
      exact ⟨.received, by simpa using hcompleted, fun _ => hgo (by simp) (by simp)⟩
  | reply hq =>
    cases hinside with
    | received =>
      obtain ⟨-, rfl⟩ := msgsnd_eq_some.1 hq
      refine ⟨?_, by simpa using hcompleted, fun _ => hgo (by simp) (by simp)⟩
      simpa [replies_succ] using Inside.replied
  | join =>
    cases hinside with
    | replied => exact ⟨.create, by simpa using hcompleted, fun h => absurd rfl h⟩

/-- In every run the queue holds the replies of the completed runs and what the present run has
added. -/
theorem reachable_serialOk (h : exec (serialStep cap args) .init run = some s) :
    SerialOk args run s := by
  refine exec_induction ?_ (fun _ ok hstep => ok.step hstep) h
  exact ⟨.create, rfl, fun h => absurd rfl h⟩

/-- Between two runs the queue holds the replies of the completed ones. -/
theorem SerialOk.queue_eq (ok : SerialOk args run s) (h : s.inst.main = .create) :
    s.queue = replies args s.completed := by
  obtain ⟨queue, completed, i⟩ := s
  have hinside := ok.inside
  dsimp only at hinside
  cases hinside with
  | create => rfl
  | started | sent | received | replied => cases h

/-! ## A completed run -/

theorem main_of_create (h : serialStep cap args s .create = some t) : s.inst.main = .create := by
  obtain ⟨⟨inst, q⟩, hinst, -⟩ := Option.map_eq_some_iff.1 h
  generalize s.inst = i at hinst
  cases instSteps_of_instStep hinst with
  | create => rfl

theorem main_of_join (h : serialStep cap args s .join = some t) :
    s.inst.main = .join ∧ t.inst.main = .create := by
  obtain ⟨⟨inst, q⟩, hinst, rfl⟩ := Option.map_eq_some_iff.1 h
  generalize s.inst = i at hinst
  cases instSteps_of_instStep hinst with
  | join => exact ⟨rfl, rfl⟩

/-- A completed run adds its reply. -/
theorem not_leaves_of_join (h : exec (serialStep cap args) .init (run ++ [.join]) = some t) :
    ¬ LeavesAsFound cap args (run ++ [.join]) t := by
  intro hleaves
  obtain ⟨s, hs, hjoin⟩ := exec_concat.1 h
  obtain ⟨hmain, ht⟩ := main_of_join hjoin
  obtain ⟨pre, mid, rfl, hmid⟩ := (reachable_serialOk hs).started (by simp [hmain])
  obtain ⟨u, hu, hmid'⟩ := exec_split hs
  obtain ⟨v, hv, -⟩ := Option.bind_eq_some_iff.1 hmid'
  have hqueue := hleaves pre mid u (by simp) hmid hu
  have hokt := reachable_serialOk h
  have hoku := reachable_serialOk hu
  rw [hokt.queue_eq ht, hoku.queue_eq (main_of_create hv)] at hqueue
  have hlength := congrArg List.length hqueue
  rw [replies_length, replies_length, hokt.completed, hoku.completed] at hlength
  simp [List.count_eq_zero_of_not_mem hmid] at hlength

/-! ## The deadlock -/

/-- **A run deadlocks exactly when the completed ones have filled the queue.** -/
theorem deadlocked_iff (h : exec (serialStep cap args) .init run = some s) :
    Deadlocked cap args run s ↔
      s.inst = ⟨.send, .receive⟩ ∧ cap < (s.completed + 1) * sizeofMsgtype := by
  have hinside := (reachable_serialOk h).inside
  rw [Deadlocked, msgsnd_eq_none, and_congr_right_iff]
  intro hinst
  rw [hinst] at hinside
  generalize s.queue = queue at hinside
  cases hinside with
  | started =>
    have hnone : msgrcv 1 (replies args s.completed) = none :=
      msgrcv_eq_none.2 fun m => mtype_of_mem_replies
    simp [hnone, message, Nat.add_mul]

/-- A run that finds room for its message completes. -/
theorem exec_one_run (hroom : (n + 1) * sizeofMsgtype ≤ cap) :
    exec (serialStep cap args) ⟨replies args n, n, .init⟩
      [.create, .mainSend, .receive, .reply, .join] =
      some ⟨replies args (n + 1), n + 1, .init⟩ := by
  have hsend : ∀ t, msgsnd (some cap) (replies args n) (message t (args n)) =
      some (replies args n ++ [message t (args n)]) := by
    intro t
    rw [msgsnd_eq_some]
    simpa [message, Nat.add_mul] using hroom
  have hreceive : msgrcv 1 (replies args n ++ [message 1 (args n)]) =
      some (message 1 (args n), replies args n) :=
    msgrcv_concat (fun m => mtype_of_mem_replies) rfl
  simp [serialStep, instStep, Instance.init, hsend, hreceive, replies_succ]

/-- As many runs complete as the capacity holds messages. -/
theorem exec_runs (args : ℕ → β) (h : n * sizeofMsgtype ≤ cap) : ∃ run,
    exec (serialStep cap args) .init run = some ⟨replies args n, n, .init⟩ := by
  induction n with
  | zero => exact ⟨[], rfl⟩
  | succ n ih =>
    have hle : n * sizeofMsgtype ≤ (n + 1) * sizeofMsgtype := Nat.mul_le_mul_right _ n.le_succ
    obtain ⟨run, hrun⟩ := ih (hle.trans h)
    refine ⟨run ++ [.create, .mainSend, .receive, .reply, .join], ?_⟩
    rw [exec_append, hrun]
    exact exec_one_run h

/-- **Every queue fills.** For every capacity a deadlock is reachable: the runs that fit complete,
and the next one deadlocks. -/
theorem deadlock_reachable (cap : ℕ) (args : ℕ → β) : ∃ run s,
    exec (serialStep cap args) .init run = some s ∧ Deadlocked cap args run s ∧
      s.completed = cap / sizeofMsgtype := by
  obtain ⟨run, hrun⟩ := exec_runs args (Nat.div_mul_le_self cap sizeofMsgtype)
  have hs : exec (serialStep cap args) .init (run ++ [.create]) = some
      ⟨replies args (cap / sizeofMsgtype), cap / sizeofMsgtype, ⟨.send, .receive⟩⟩ :=
    exec_concat.2 ⟨_, hrun, rfl⟩
  refine ⟨_, _, hs, (deadlocked_iff hs).2 ⟨rfl, ?_⟩, rfl⟩
  show cap < (cap / sizeofMsgtype + 1) * sizeofMsgtype
  unfold sizeofMsgtype
  omega

/-- **No completed run leaves the queue as it found it.** For any capacity that holds a message:
every completed run has left the queue as it found it and no state is a deadlock, if and only if no
run has completed. -/
theorem leaves_iff {β : Type} (cap : ℕ) (hcap : sizeofMsgtype ≤ cap) (args : ℕ → β)
    (run : List Act) (s : Serial β) (h : exec (serialStep cap args) .init run = some s) :
    Throughout (serialStep cap args) .init (LeavesAsFound cap args) run ∧
        Throughout (serialStep cap args) .init (fun run s => ¬ Deadlocked cap args run s) run ↔
      .join ∉ run := by
  constructor
  · rintro ⟨hleaves, -⟩ hjoin
    obtain ⟨pre, post, rfl⟩ := List.append_of_mem hjoin
    obtain ⟨u, hu, -⟩ := exec_split h
    obtain ⟨t, -, ht⟩ := exec_taken h hu
    exact not_leaves_of_join ht (hleaves (pre ++ [.join]) post t (by simp) ht)
  · intro hno
    refine ⟨?_, ?_⟩
    · rintro pre post t rfl - pre' mid u rfl
      simp at hno
    · rintro pre post t rfl ht hdead
      have hcompleted := (reachable_serialOk ht).completed
      obtain ⟨-, hfull⟩ := (deadlocked_iff ht).1 hdead
      have hzero : pre.count .join = 0 :=
        List.count_eq_zero_of_not_mem fun hin => hno (List.mem_append_left _ hin)
      rw [hcompleted, hzero] at hfull
      omega

theorem leaves_first_run :
    Throughout (serialStep 264 fun _ => ()) .init (LeavesAsFound 264 fun _ => ())
        [.create, .mainSend, .receive, .reply] ∧
      Throughout (serialStep 264 fun _ => ()) .init
        (fun run s => ¬ Deadlocked 264 (fun _ => ()) run s)
        [.create, .mainSend, .receive, .reply] := by
  obtain ⟨s, hs⟩ : ∃ s, exec (serialStep 264 fun _ => ()) .init
      [.create, .mainSend, .receive, .reply] = some s := ⟨_, rfl⟩
  exact (leaves_iff 264 (by decide) _ _ s hs).2 (by decide)

/-- On a queue that holds one message, the first run leaves its reply, and the second deadlocks. -/
theorem not_leaves_second_run :
    ¬ Throughout (serialStep 264 fun _ => ()) .init (LeavesAsFound 264 fun _ => ())
        [.create, .mainSend, .receive, .reply, .join, .create] ∧
      ¬ Throughout (serialStep 264 fun _ => ()) .init
        (fun run s => ¬ Deadlocked 264 (fun _ => ()) run s)
        [.create, .mainSend, .receive, .reply, .join, .create] := by
  refine ⟨fun h => ?_, fun h => ?_⟩
  · have hqueue := h [.create, .mainSend, .receive, .reply, .join] [.create] _ rfl rfl
      [] [.mainSend, .receive, .reply] _ rfl (by decide) rfl
    cases hqueue
  · exact h _ [] _ (List.append_nil _).symm rfl ⟨rfl, rfl, rfl⟩

end Starrysky.Msgqueue
