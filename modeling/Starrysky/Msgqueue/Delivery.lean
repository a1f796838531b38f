import Starrysky.Msgqueue.Processes

/-!
# Who receives whose string

Every process sends and receives messages of type 1 on the one queue, so that a thread receives
whatever has waited longest, which need not be the message of its own `main` (`not_own_crossed`).
What does hold is the order: the messages are received in the order in which they were queued, each
by one thread, which prints the string in it if there is one (`received_in_order`). Unlike in
`processes_refine` the messages in the queue at first may be of any length that `msgrcv` does not
refuse, so that what the thread has received need not fill its `msg`.
-/

namespace Starrysky.Msgqueue

open MessageQueue ServedQueue UserCopy UserMsg Transition

/-- Each thread that has received and printed has received the message of its own `main`, and
printed the argument of its process, cut to the 255 bytes that `main` copies. -/
def Own {ι : Type} (args : ι → CString) (s : Processes ι) : Prop :=
  ∀ k x, (s.proc k).received = some x → (s.proc k).sent = some x ∧
    ∀ out, (s.proc k).printed = some out → out = some ((args k).bytes.take BUFFER)

variable {ι : Type} {cap : Option ℕ} {frames : ι → Frames} {args : ι → CString} {mem : ι → Memory}
  {q₀ : List Message} {run : List (ι × Stmt)} {s t : Processes ι} {x : ι × Stmt} {f : Frames}
  {arg : CString} {mem₀ : Memory} {p u : Process} {c : Stmt}

/-- A statement appends the message that `main` sends to those that wait, or receives the first of
them. -/
theorem StmtSteps.serves (h : StmtSteps cap f arg p c u) (ok : ProcessOk f arg mem₀ p)
    (hlength : ∀ y ∈ ofType 1 p.queue, y.text.length ≤ sizeofMsgtype) :
    Serves (ofType 1 p.queue) p.received
      (if c = .mainSend then [message 1 (payload f.main arg mem₀)] else []) (decide (c = .receive))
      (ofType 1 u.queue) u.received := by
  cases h with
  | create | mainMtype | strncpy | printf | thrMtype | join => exact .pass
  | mainSend hpc hq =>
    have hmain := ok.main
    rw [hpc] at hmain
    obtain ⟨-, rfl⟩ := msgsnd_eq_some.1 hq
    have htype : ofType 1 (p.queue ++ [sendMsg p.mem f.main]) =
        ofType 1 p.queue ++ [message 1 (payload f.main arg mem₀)] := by
      rw [hmain.1]
      exact ofType_concat_self rfl
    dsimp only
    rw [htype]
    exact .send _
  | @receive y q stores hpc hq hstores =>
    have hthr := ok.thr
    rw [hpc] at hthr
    obtain ⟨-, htype, -⟩ := ofType_msgrcv hq
    rw [htype, hthr.1]
    exact .take y
  | refused hpc hq hstores =>
    obtain ⟨-, htype, -⟩ := ofType_msgrcv hq
    rw [htype, List.forall_mem_cons] at hlength
    simp [recvMsg, UserMsg.received, hlength.1] at hstores
  | reply hpc hq =>
    have hthr := ok.thr
    rw [hpc] at hthr
    obtain ⟨-, rfl⟩ := msgsnd_eq_some.1 hq
    have htype : ofType 1 (p.queue ++ [sendMsg p.mem f.thr]) = ofType 1 p.queue := by
      refine ofType_concat_of_ne ?_
      rw [sendMsg, UserMsg.sent, hthr.2]
      exact (by decide : (2 : Int64).toInt ≠ 1)
    dsimp only
    rw [htype]
    exact .pass

/-- `main` has sent its message when it has passed its `msgsnd`, and no other statement sends one
for it. -/
theorem StmtSteps.sent (h : StmtSteps cap f arg p c u) (ok : ProcessOk f arg mem₀ p) :
    u.sent = if c = .mainSend then some (message 1 (payload f.main arg mem₀)) else p.sent := by
  cases h with
  | mainSend hpc hq =>
    have hmain := ok.main
    rw [hpc] at hmain
    exact congrArg some hmain.1
  | create | mainMtype | strncpy | receive | refused | printf | thrMtype | reply | join => rfl

/-- What holds in every run on a queue whose messages of type 1 are not too long: what each process
has on its stacks, the messages received and those that wait, and those that the `main`s have sent.
-/
structure DeliveredOk (frames : ι → Frames) (args : ι → CString) (mem : ι → Memory)
    (q₀ : List Message) (run : List (ι × Stmt)) (s : Processes ι) : Prop where
  proc : ∀ k, ProcessOk (frames k) (args k) (mem k) (s.proc k)
  served : Served
    (ofType 1 q₀ ++ (calls .mainSend run).map fun k => message 1 (payloads frames args mem k))
    (calls .receive run) (fun k => (s.proc k).received) (ofType 1 s.queue)
  length_le : ∀ y ∈ ofType 1 s.queue, y.text.length ≤ sizeofMsgtype
  sent : ∀ k ∈ calls .mainSend run, (s.proc k).sent = some (message 1 (payloads frames args mem k))

theorem DeliveredOk.init (hq₀ : ∀ y ∈ ofType 1 q₀, y.text.length ≤ sizeofMsgtype) :
    DeliveredOk frames args mem q₀ [] (.init mem q₀ : Processes ι) where
  proc _ := .init
  served := by
    have hserved : Served (ofType 1 q₀) [] (fun k => ((.init mem q₀ : Processes ι).proc k).received)
        (ofType 1 q₀) := .init fun _ => rfl
    simpa [calls, Processes.init] using hserved
  length_le := hq₀
  sent _ := nofun

variable [DecidableEq ι]

/-- A statement of one process keeps the order of all messages. -/
theorem DeliveredOk.step (ok : DeliveredOk frames args mem q₀ run s)
    (h : processesStep cap frames args s x = some t) :
    DeliveredOk frames args mem q₀ (run ++ [x]) t := by
  obtain ⟨k, c⟩ := x
  obtain ⟨u, hu, rfl⟩ := Option.map_eq_some_iff.1 h
  have hsteps := stmtSteps_of_stmtStep hu
  have hk : ProcessOk (frames k) (args k) (mem k) { s.proc k with queue := s.queue } :=
    (ok.proc k).withQueue s.queue
  have hserves := hsteps.serves hk ok.length_le
  refine ⟨processOk_step ok.proc h, ?_, ?_, fun l hl => ?_⟩
  · have hserved := ok.served.step hserves
    have hsent : (if c = .mainSend then [k] else []).map
        (fun l => message 1 (payloads frames args mem l)) =
        if c = .mainSend then [message 1 (payloads frames args mem k)] else [] := by
      by_cases hc : c = .mainSend <;> simp [hc]
    have hreceived : (fun l => (Function.update s.proc k u l).received) =
        Function.update (fun l => (s.proc l).received) k u.received :=
      Function.comp_update Process.received s.proc k u
    rw [calls_concat, calls_concat, List.map_append, hsent, hreceived, ← List.append_assoc]
    simpa [payloads] using hserved
  · refine hserves.forall_mem ok.length_le fun y hy => ?_
    by_cases hc : c = .mainSend
    · simp only [hc, if_true, List.mem_singleton] at hy
      simp [hy]
    · simp [hc] at hy
  · have hsent := hsteps.sent hk
    rw [calls_concat, List.mem_append] at hl
    by_cases hlk : l = k
    · subst hlk
      by_cases hc : c = .mainSend
      · simp [hsent, hc, payloads]
      · have hbefore : l ∈ calls .mainSend run := by simpa [hc] using hl
        simpa [hsent, hc] using ok.sent l hbefore
    · have hbefore : l ∈ calls .mainSend run := by
        by_cases hc : c = .mainSend <;> simpa [hc, hlk] using hl
      simpa [hlk] using ok.sent l hbefore

/-- **First queued, first received.** In every run of any number of processes on a queue of any
capacity, whose messages of type 1 are at first not longer than `msgrcv` allows: each thread
receives at most once, and the thread that receives as the `n`-th receives the `n`-th of the
messages of type 1 that were queued, which are those that were in the queue at first and behind them
those that the `main`s have sent, in the order in which they did. If there is a NUL in the first 256
bytes of its text, the thread prints the string before it. -/
theorem received_in_order {ι : Type} [DecidableEq ι] (cap : Option ℕ) (frames : ι → Frames)
    (args : ι → CString) (mem : ι → Memory) (q₀ : List Message)
    (hq₀ : ∀ y ∈ ofType 1 q₀, y.text.length ≤ sizeofMsgtype) (run : List (ι × Stmt))
    (s : Processes ι) (h : exec (processesStep cap frames args) (.init mem q₀) run = some s) :
    (calls .receive run).Nodup ∧
      (∀ k, (s.proc k).received.isSome ↔ k ∈ calls .receive run) ∧
      ∀ (n : ℕ) k, (calls .receive run)[n]? = some k → ∃ x, (s.proc k).received = some x ∧
        ((ofType 1 q₀).map some ++ (calls .mainSend run).map fun l => (s.proc l).sent)[n]? =
          some (some x) ∧
        ∀ str, CString.untilNul (x.text.take (BUFFER + 1)) = some str →
          ∀ out, (s.proc k).printed = some out → out = some str := by
  have ok : DeliveredOk frames args mem q₀ run s :=
    exec_induction (P := fun run s => DeliveredOk frames args mem q₀ run s) (.init hq₀)
      (fun _ ok hstep => ok.step hstep) h
  refine ⟨ok.served.nodup, fun k => (ok.served.mem_iff k).symm, fun n k hn => ?_⟩
  obtain ⟨x, hx, hnth⟩ := ok.served.nth hn
  refine ⟨x, hx, ?_, fun str hstr out hout => ?_⟩
  · have hqueued : (ofType 1 q₀).map some ++ (calls .mainSend run).map (fun l => (s.proc l).sent) =
        (ofType 1 q₀ ++ (calls .mainSend run).map
          fun l => message 1 (payloads frames args mem l)).map some := by
      rw [List.map_append, List.map_map]
      exact congrArg _ (List.map_congr_left ok.sent)
    rw [hqueued, List.getElem?_map, hnth]
    rfl
  · obtain ⟨-, out', hout', hprinted⟩ := (ok.proc k).printed hout
    obtain rfl : out = out' := Option.some.inj (hout.symm.trans hout')
    have hzero : 0 ∈ x.text.take (BUFFER + 1) := by
      by_contra hno
      rw [CString.untilNul_eq_none.2 hno] at hstr
      cases hstr
    rw [hprinted x hx (.inr hzero), hstr]

/-- The thread of `./msqu i` receives what the `main` of `./msqu h` has sent, and prints `h`. -/
theorem received_in_order_crossed :
    ∃ s : Processes (Fin 2), exec (processesStep none (fun _ => ⟨0, 1024, .inl (by decide)⟩)
        ![⟨[104], by decide⟩, ⟨[105], by decide⟩]) (.init (fun _ _ => 0) [])
        [(0, .create), (1, .create), (0, .mainMtype), (0, .strncpy), (0, .mainSend), (1, .receive),
          (1, .printf)] = some s ∧
      ∃ x, (s.proc 1).received = some x ∧ (s.proc 0).sent = some x ∧
        (s.proc 1).printed = some (some [104]) := by
  have hsome : ∃ s ∈ exec (processesStep none (fun _ => ⟨0, 1024, .inl (by decide)⟩)
      ![⟨[104], by decide⟩, ⟨[105], by decide⟩]) (.init (fun _ _ => 0) [])
      [((0 : Fin 2), .create), (1, .create), (0, .mainMtype), (0, .strncpy), (0, .mainSend),
        (1, .receive), (1, .printf)],
      (s.proc 1).printed.isSome ∧ ∀ x ∈ (s.proc 1).received,
        CString.untilNul (x.text.take (BUFFER + 1)) = some [104] := by
    decide +kernel
  obtain ⟨s, hs, hprinted, hstr⟩ := hsome
  obtain ⟨-, -, hnth⟩ := received_in_order none _ _ _ [] nofun _ s hs
  obtain ⟨x, hx, hsent, hprints⟩ := hnth 0 1 (by decide)
  obtain ⟨out, hout⟩ := Option.isSome_iff_exists.1 hprinted
  exact ⟨s, hs, x, hx, Option.some.inj hsent, by rw [hout, hprints _ (hstr x hx) out hout]⟩

/-- The thread of `./msqu i` should receive and print `i`, but prints what the `main` of `./msqu h`
has sent. -/
theorem not_own_crossed :
    ∃ s : Processes (Fin 2), exec (processesStep none (fun _ => ⟨0, 1024, .inl (by decide)⟩)
        ![⟨[104], by decide⟩, ⟨[105], by decide⟩]) (.init (fun _ _ => 0) [])
        [(0, .create), (1, .create), (0, .mainMtype), (0, .strncpy), (0, .mainSend), (1, .receive),
          (1, .printf)] = some s ∧
      ¬ Own ![⟨[104], by decide⟩, ⟨[105], by decide⟩] s := by
  have hsome : ∃ s ∈ exec (processesStep none (fun _ => ⟨0, 1024, .inl (by decide)⟩)
      ![⟨[104], by decide⟩, ⟨[105], by decide⟩]) (.init (fun _ _ => 0) [])
      [((0 : Fin 2), .create), (1, .create), (0, .mainMtype), (0, .strncpy), (0, .mainSend),
        (1, .receive), (1, .printf)],
      (s.proc 1).received.isSome ∧ (s.proc 1).printed = some (some [104]) := by
    decide +kernel
  obtain ⟨s, hs, hreceived, hprinted⟩ := hsome
  refine ⟨s, hs, fun hown => ?_⟩
  obtain ⟨x, hx⟩ := Option.isSome_iff_exists.1 hreceived
  obtain ⟨-, hprints⟩ := hown 1 x hx
  exact absurd (hprints _ hprinted) (by decide)

end Starrysky.Msgqueue
