import Starrysky.Msgqueue.Argument
import Starrysky.Msgqueue.Concurrent
import Mathlib.Algebra.BigOperators.Group.Finset.Basic

/-!
# The processes, side by side

Any number of processes run the program on one queue, each on the bytes of its own memory, and their
statements interleave. On a queue whose messages of type 1 are as long as those of the program the
machine refines the one of `Concurrent`, each instance being given the 264 bytes that its `main`
sends (`processes_refine`). So every thread receives the message of one `main`, no two threads that
of the same one, and prints what that argument comes to (`received_from_one_main`); and on a queue
of unlimited capacity every run ends, with all processes done (`processes_finish`).
-/

namespace Starrysky.Msgqueue

open MessageQueue ServedQueue UserCopy UserMsg Transition

/-- The queue of the key, and the processes. The queue in a process is the one that its last
statement left. -/
structure Processes (ι : Type) where
  queue : List Message
  proc : ι → Process

variable {ι : Type}

/-- All processes are started on the queue `q`, the process `k` with the memory `mem k`. -/
def Processes.init (mem : ι → Memory) (q : List Message) : Processes ι :=
  { queue := q, proc := fun k => .init (mem k) q }

/-- A statement of the process `x.1`. -/
def processesStep [DecidableEq ι] (cap : Option ℕ) (frames : ι → Frames) (args : ι → CString)
    (s : Processes ι) (x : ι × Stmt) : Option (Processes ι) :=
  (stmtStep cap (frames x.1) (args x.1) { s.proc x.1 with queue := s.queue } x.2).map fun t =>
    { queue := t.queue, proc := Function.update s.proc x.1 t }

/-- What the `main` of each process sends. -/
def payloads (frames : ι → Frames) (args : ι → CString) (mem : ι → Memory) (k : ι) : List UInt8 :=
  payload (frames k).main (args k) (mem k)

/-- The instances that the processes are. -/
def Processes.instances (frames : ι → Frames) (s : Processes ι) :
    Concurrent ι (List UInt8) :=
  { queue := s.queue, inst := fun k => (s.proc k).inst (frames k) }

/-- The step of an instance that a statement of a process is, if any. -/
def stmtActs (x : ι × Stmt) : List (ι × Act) := x.2.acts.map (x.1, ·)

variable {cap : Option ℕ} {frames : ι → Frames} {args : ι → CString}
  {mem : ι → Memory} {s t : Processes ι} {x : ι × Stmt} {run : List (ι × Stmt)} {q₀ : List Message}
  {f : Frames} {arg : CString} {mem₀ : Memory} {p u : Process} {c : Stmt} {k : ι}

/-! ## What the thread has received -/

/-- On a queue of the program the thread that has passed `msgrcv` has received, and what it has
received is still behind its `mtype`. -/
structure Kept (f : Frames) (p : Process) : Prop where
  received : p.received.isSome ↔ p.thr ∉ [.absent, .msgrcv]
  text : ∀ y ∈ p.received, load p.mem (f.thr + 8) sizeofMsgtype = y.text

theorem Kept.init {q : List Message} : Kept f (.init mem₀ q) :=
  ⟨by simp [Process.init], by simp [Process.init]⟩

/-- No statement of the process writes over the text that its thread has received. -/
theorem Kept.step (kept : Kept f p) (ok : ProcessOk f arg mem₀ p) (hown : OwnRequests p.queue)
    (h : StmtSteps cap f arg p c u) : Kept f u := by
  cases h with
  | create hpc =>
    refine ⟨?_, kept.text⟩
    rw [kept.received, ok.created hpc]
    simp
  | mainMtype =>
    refine ⟨kept.received, fun y hy => ?_⟩
    rw [load_thr le_rfl (by simp [sizeofMsgtype])]
    exact kept.text y hy
  | strncpy =>
    refine ⟨kept.received, fun y hy => ?_⟩
    rw [load_thr (by omega) (by simp [sizeofMsgtype, BUFFER])]
    exact kept.text y hy
  | mainSend | join => exact ⟨kept.received, kept.text⟩
  | @receive y q stores hpc hq hstores =>
    obtain ⟨-, htype, -⟩ := ofType_msgrcv hq
    rw [OwnRequests, htype, List.forall_mem_cons] at hown
    have hload := load_received (m := p.mem) hstores
    rw [hown.1] at hload
    refine ⟨by simp, ?_⟩
    rintro _ ⟨⟩
    exact hload
  | refused hpc hq hstores =>
    obtain ⟨-, htype, -⟩ := ofType_msgrcv hq
    rw [OwnRequests, htype, List.forall_mem_cons] at hown
    simp [recvMsg, UserMsg.received, hown.1] at hstores
  | printf hpc =>
    refine ⟨?_, kept.text⟩
    rw [kept.received, hpc]
    simp
  | thrMtype hpc =>
    refine ⟨?_, fun y hy => ?_⟩
    · rw [kept.received, hpc]
      simp
    · have hload : load (apply p.mem (storesAt f.thr (longBytes 2))) (f.thr + 8) sizeofMsgtype =
          load p.mem (f.thr + 8) sizeofMsgtype := load_apply_storesAt_of_disjoint (.inr (by simp))
      rw [hload]
      exact kept.text y hy
  | reply hpc =>
    refine ⟨?_, kept.text⟩
    rw [kept.received, hpc]
    simp

/-- The instance has received the text that the thread has received. -/
theorem Kept.inst_received (kept : Kept f p) :
    (p.inst f).received = p.received.map Msg.text := by
  have hreceived := kept.received
  cases hy : p.received with
  | none =>
    rw [hy] at hreceived
    cases hpc : p.thr <;> simp [hpc] at hreceived <;>
      simp [Process.inst, Instance.received, ThrStmt.pc, hpc]
  | some y =>
    have htext := kept.text y (Option.mem_def.2 hy)
    rw [hy] at hreceived
    cases hpc : p.thr <;> simp [hpc] at hreceived <;>
      simp [Process.inst, Instance.received, ThrStmt.pc, hpc, htext]

/-! ## The refinement -/

/-- What holds in every run on a queue that holds messages of the program only. -/
structure ProcessesOk (frames : ι → Frames) (args : ι → CString) (mem : ι → Memory)
    (s : Processes ι) : Prop where
  proc : ∀ k, ProcessOk (frames k) (args k) (mem k) (s.proc k)
  kept : ∀ k, Kept (frames k) (s.proc k)
  own : OwnRequests s.queue

theorem ProcessesOk.init (hown : OwnRequests q₀) :
    ProcessesOk frames args mem (.init mem q₀ : Processes ι) :=
  ⟨fun _ => .init, fun _ => .init, hown⟩

variable [DecidableEq ι]

/-- The run of one instance beside the others. -/
theorem exec_concurrent {cap : Option ℕ} {args : ι → List UInt8} {acts : List Act}
    {s : Concurrent ι (List UInt8)} {j : Instance (List UInt8)} {q : List Message}
    (h : exec (fun x a => instStep cap (args k) x.1 x.2 a) (s.inst k, s.queue) acts =
      some (j, q)) :
    exec (concurrentStep cap args) s (acts.map (k, ·)) =
      some { queue := q, inst := Function.update s.inst k j } := by
  induction acts generalizing s with
  | nil =>
    cases h
    simp
  | cons a acts ih =>
    obtain ⟨⟨i, q'⟩, hi, hacts⟩ := Option.bind_eq_some_iff.1 h
    have hstep : concurrentStep cap args s (k, a) =
        some { queue := q', inst := Function.update s.inst k i } := by
      have hi : instStep cap (args k) (s.inst k) s.queue a = some (i, q') := hi
      simp [concurrentStep, hi]
    rw [List.map_cons, exec_cons, hstep, Option.bind_some, ih (by simpa using hacts)]
    simp

/-- A statement of one process leaves each process with what it has on its stacks. -/
theorem processOk_step (hproc : ∀ k, ProcessOk (frames k) (args k) (mem k) (s.proc k))
    (h : processesStep cap frames args s x = some t) :
    ∀ k, ProcessOk (frames k) (args k) (mem k) (t.proc k) := by
  obtain ⟨l, c⟩ := x
  obtain ⟨u, hu, rfl⟩ := Option.map_eq_some_iff.1 h
  intro k
  by_cases hkl : k = l
  · subst hkl
    simpa using ((hproc k).withQueue s.queue).step (stmtSteps_of_stmtStep hu)
  · simpa [hkl] using hproc k

/-- **Step lemma**: a statement of a process is a step of its instance, or none. -/
theorem ProcessesOk.step (ok : ProcessesOk frames args mem s)
    (h : processesStep cap frames args s x = some t) :
    exec (concurrentStep cap (payloads frames args mem)) (s.instances frames) (stmtActs x) =
      some (t.instances frames) ∧ ProcessesOk frames args mem t := by
  obtain ⟨k, c⟩ := x
  obtain ⟨u, hu, rfl⟩ := Option.map_eq_some_iff.1 h
  have hsteps := stmtSteps_of_stmtStep hu
  have hk : ProcessOk (frames k) (args k) (mem k) { s.proc k with queue := s.queue } :=
    (ok.proc k).withQueue s.queue
  have hkept : Kept (frames k) { s.proc k with queue := s.queue } :=
    ⟨(ok.kept k).received, (ok.kept k).text⟩
  obtain ⟨hexec, hown⟩ := hsteps.refines hk ok.own
  refine ⟨?_, processOk_step ok.proc h, fun l => ?_, hown⟩
  · have hinst : (⟨u.queue, Function.update s.proc k u⟩ : Processes ι).instances frames =
        ⟨u.queue, Function.update (s.instances frames).inst k (u.inst (frames k))⟩ := by
      refine congrArg (Concurrent.mk u.queue) (funext fun l => ?_)
      by_cases hlk : l = k
      · subst hlk
        simp
      · simp [hlk, Processes.instances]
    rw [hinst]
    exact exec_concurrent hexec
  · by_cases hlk : l = k
    · subst hlk
      simpa using hkept.step hk ok.own hsteps
    · simpa [hlk] using ok.kept l

/-- **Refinement.** Every run of the processes is a run of the instances. -/
theorem processes_refine (hown : OwnRequests q₀)
    (h : exec (processesStep cap frames args) (.init mem q₀) run = some s) :
    exec (concurrentStep cap (payloads frames args mem)) (.init q₀) (run.flatMap stmtActs) =
      some (s.instances frames) ∧ ProcessesOk frames args mem s := by
  let R (s : Processes ι) (t : Concurrent ι (List UInt8)) : Prop :=
    ProcessesOk frames args mem s ∧ t = s.instances frames
  have hstep : ∀ {s x s' t}, R s t → processesStep cap frames args s x = some s' →
      ∃ t', exec (concurrentStep cap (payloads frames args mem)) t (stmtActs x) = some t' ∧
        R s' t' := by
    rintro s x s' t ⟨ok, rfl⟩ hx
    obtain ⟨hexec, ok⟩ := ok.step hx
    exact ⟨_, hexec, ok, rfl⟩
  obtain ⟨t, ht, ok, rfl⟩ := exec_simulation hstep ⟨.init hown, rfl⟩ h
  exact ⟨ht, ok⟩

/-! ## Whose message a thread receives -/

/-- An instance has sent when its `main` has. -/
theorem ProcessOk.sent_of_taken (ok : ProcessOk f arg mem₀ p) (h : (p.inst f).Taken .mainSend) :
    p.sent = some (message 1 (payload f.main arg mem₀)) := by
  have hmain := ok.main
  cases hpc : p.main with
  | create | mtype => simp [Instance.Taken, Process.inst, MainStmt.pc, hpc] at h
  | strncpy | msgsnd => simp [Instance.Taken, Process.inst, MainStmt.pc, hpc] at h
  | join | done => simpa [hpc, MainInside] using hmain

/-- **Every thread receives the message of one `main`, and no two that of the same one.** In every
run of any number of processes, on a queue of any capacity that held no message of type 1: the
threads that have received can be given one `main` each, which has sent, byte for byte, the text
that the thread has received; and the string that the thread has printed is that of the argument of
this `main`, cut to 255 bytes, if it is shorter than that or the last byte of the buffer was 0. -/
theorem received_from_one_main {ι : Type} [DecidableEq ι] (cap : Option ℕ) (frames : ι → Frames)
    (args : ι → CString) (mem : ι → Memory) (q₀ : List Message) (hq₀ : ∀ y ∈ q₀, y.mtype ≠ 1)
    (run : List (ι × Stmt)) (s : Processes ι)
    (h : exec (processesStep cap frames args) (.init mem q₀) run = some s) :
    ∃ σ : ι → ι, Set.InjOn σ {k | (s.proc k).received.isSome} ∧
      ∀ k x, (s.proc k).received = some x →
        (∃ y, (s.proc (σ k)).sent = some y ∧ y.text = x.text) ∧
        ∀ out, (s.proc k).printed = some out →
          out = if (args (σ k)).bytes.length < BUFFER ∨
              mem (σ k) ((frames (σ k)).main + 8 + BUFFER) = 0 then
            some ((args (σ k)).bytes.take BUFFER) else none := by
  have hnone : ofType 1 q₀ = [] := by simpa [ofType] using hq₀
  obtain ⟨hrefined, ok⟩ := processes_refine (by simp [OwnRequests, hnone]) h
  have cok := reachable_concurrentOk hrefined
  have htexts : ∀ k, ((s.instances frames).inst k).received =
      (s.proc k).received.map Msg.text := fun k => (ok.kept k).inst_received
  have hreceived : ∀ k, k ∈ calls .receive (run.flatMap stmtActs) ↔
      (s.proc k).received.isSome := by
    intro k
    rw [cok.served.mem_iff, htexts, Option.isSome_map]
  have hserved := cok.served
  simp only [requests, hnone, List.map_nil, List.nil_append] at hserved
  obtain ⟨σ, hinj, hσ⟩ := hserved.exists_matching (cok.nodup .mainSend)
  refine ⟨σ, by simpa only [hreceived] using hinj, fun k x hx => ?_⟩
  obtain ⟨hmem, htext⟩ := hσ k ((hreceived k).2 (by simp [hx]))
  have htext : payloads frames args mem (σ k) = x.text := by
    rw [htexts, hx] at htext
    simpa using htext.symm
  refine ⟨⟨_, (ok.proc (σ k)).sent_of_taken ((cok.taken _ _).1 hmem), htext⟩, fun out hout => ?_⟩
  obtain ⟨-, out', hout', htake⟩ := (ok.proc k).printed hout
  obtain rfl : out = out' := Option.some.inj (hout.symm.trans hout')
  have hlong : BUFFER < x.text.length := by
    rw [← htext, payloads, payload_length]
    decide
  rw [htake x hx (.inl hlong), ← htext, payloads, take_payload, CString.untilNul_strncpy]

/-- The thread of the second process receives and prints the argument of the first one. -/
theorem received_from_one_main_crossed :
    ∃ s : Processes (Fin 2), exec (processesStep none (fun _ => ⟨0, 1024, .inl (by decide)⟩)
        ![⟨[104], by decide⟩, ⟨[105], by decide⟩]) (.init (fun _ _ => 0) [])
        [(0, .create), (1, .create), (0, .mainMtype), (0, .strncpy), (0, .mainSend), (1, .receive),
          (1, .printf)] = some s ∧
      ∃ k y, (s.proc k).sent = some y ∧ (s.proc 1).received.map Msg.text = some y.text := by
  have hsome : ∃ s ∈ exec (processesStep none (fun _ => ⟨0, 1024, .inl (by decide)⟩)
      ![⟨[104], by decide⟩, ⟨[105], by decide⟩]) (.init (fun _ _ => 0) [])
      [((0 : Fin 2), .create), (1, .create), (0, .mainMtype), (0, .strncpy), (0, .mainSend),
        (1, .receive), (1, .printf)], (s.proc 1).received.isSome := by
    decide +kernel
  obtain ⟨s, hs, hreceived⟩ := hsome
  obtain ⟨x, hx⟩ := Option.isSome_iff_exists.1 hreceived
  obtain ⟨σ, -, hσ⟩ := received_from_one_main none _ _ _ [] (by simp) _ s hs
  obtain ⟨⟨y, hy, htext⟩, -⟩ := hσ 1 x hx
  exact ⟨s, hs, σ 1, y, hy, by rw [hx, htext]; rfl⟩

/-! ## Every run ends -/

/-- The statements that `main` has yet to run. -/
def MainStmt.left : MainStmt → ℕ
  | .create => 5
  | .mtype => 4
  | .strncpy => 3
  | .msgsnd => 2
  | .join => 1
  | .done => 0

/-- The statements that the thread has yet to run. -/
def ThrStmt.left : ThrStmt → ℕ
  | .absent | .msgrcv => 4
  | .printf => 3
  | .mtype => 2
  | .msgsnd => 1
  | .exit => 0

def Process.left (p : Process) : ℕ := p.main.left + p.thr.left

/-- `main` is at its end exactly if the `main` of the instance is. -/
theorem inst_main_eq_done : (p.inst f).main = .done ↔ p.main = .done := by
  show p.main.pc = .done ↔ _
  cases p.main <;> simp [MainStmt.pc]

/-- A process whose instance has ended has no statement left. -/
theorem left_eq_zero (hmain : p.main = .done) {buffer : List UInt8}
    (hthr : (p.inst f).thr = .exit buffer) : p.left = 0 := by
  have hexit : p.thr = .exit := by
    cases hpc : p.thr with
    | exit => rfl
    | absent | msgrcv | printf | mtype | msgsnd => simp [Process.inst, hpc, ThrStmt.pc] at hthr
  rw [Process.left, hmain, hexit]
  rfl

/-- Each statement is run once. -/
theorem StmtSteps.left (h : StmtSteps cap f arg p c u) (ok : ProcessOk f arg mem₀ p) :
    p.left = u.left + 1 := by
  cases h with
  | create hpc => simp [Process.left, hpc, ok.created hpc, MainStmt.left, ThrStmt.left]
  | mainMtype hpc | strncpy hpc | mainSend hpc =>
    simp only [Process.left, hpc, MainStmt.left]
    omega
  | receive hpc | refused hpc | printf hpc | thrMtype hpc | reply hpc =>
    simp only [Process.left, hpc, ThrStmt.left, Nat.add_assoc]
  | join hpc hexit => simp [Process.left, hpc, hexit, MainStmt.left, ThrStmt.left]

/-- **Progress.** Where an instance of the process can take a step, the process can run a
statement. -/
theorem exists_stmt {a : Act}
    (h : (instStep none (payload f.main arg mem₀) (p.inst f) p.queue a).isSome) :
    ∃ c, (stmtStep none f arg p c).isSome := by
  obtain ⟨⟨j, q⟩, hj⟩ := Option.isSome_iff_exists.1 h
  have hsteps := instSteps_of_instStep hj
  have hmain : p.main.pc = (p.inst f).main := rfl
  have hthr : p.thr.pc (load p.mem (f.thr + 8) sizeofMsgtype) = (p.inst f).thr := rfl
  generalize p.inst f = i at hsteps hmain hthr
  cases hsteps with
  | create =>
    refine ⟨.create, ?_⟩
    cases hpc : p.main <;> simp [hpc, MainStmt.pc] at hmain
    simp [stmtStep, hpc]
  | mainSend =>
    cases hpc : p.main <;> simp [hpc, MainStmt.pc] at hmain
    · exact ⟨.mainMtype, by simp [stmtStep, hpc]⟩
    · exact ⟨.strncpy, by simp [stmtStep, hpc]⟩
    · exact ⟨.mainSend, by simp [stmtStep, hpc, msgsnd]⟩
  | receive hq =>
    refine ⟨.receive, ?_⟩
    cases hpc : p.thr <;> simp [hpc, ThrStmt.pc] at hthr
    simp [stmtStep, hpc, hq]
  | reply =>
    cases hpc : p.thr <;> simp [hpc, ThrStmt.pc] at hthr
    · exact ⟨.printf, by simp [stmtStep, hpc]⟩
    · exact ⟨.thrMtype, by simp [stmtStep, hpc]⟩
    · exact ⟨.reply, by simp [stmtStep, hpc, msgsnd]⟩
  | join =>
    refine ⟨.join, ?_⟩
    cases hpc : p.main <;> simp [hpc, MainStmt.pc] at hmain
    cases hpc' : p.thr <;> simp [hpc', ThrStmt.pc] at hthr
    simp [stmtStep, hpc, hpc']

variable [Fintype ι]

/-- **Run lemma**: what is left shrinks by one with every statement. -/
theorem length_add_left (hown : OwnRequests q₀)
    (h : exec (processesStep cap frames args) (.init mem q₀) run = some s) :
    run.length + ∑ k, (s.proc k).left = 9 * Fintype.card ι := by
  refine exec_induction
    (P := fun run s => run.length + ∑ k, (s.proc k).left = 9 * Fintype.card ι) ?_ ?_ h
  · simp [Processes.init, Process.init, Process.left, MainStmt.left, ThrStmt.left, Nat.mul_comm]
  · rintro run s ⟨k, c⟩ t hrun ih hstep
    obtain ⟨-, ok⟩ := processes_refine hown hrun
    obtain ⟨u, hu, rfl⟩ := Option.map_eq_some_iff.1 hstep
    have hk : ProcessOk (frames k) (args k) (mem k) { s.proc k with queue := s.queue } :=
      (ok.proc k).withQueue s.queue
    have hleft : (s.proc k).left = u.left + 1 := (stmtSteps_of_stmtStep hu).left hk
    have hrest : ∑ l ∈ Finset.univ.erase k, (Function.update s.proc k u l).left =
        ∑ l ∈ Finset.univ.erase k, (s.proc l).left := by
      refine Finset.sum_congr rfl fun l hl => ?_
      rw [Function.update_of_ne (Finset.ne_of_mem_erase hl)]
    have hbefore := Finset.add_sum_erase Finset.univ (fun l => (s.proc l).left)
      (Finset.mem_univ k)
    have hafter := Finset.add_sum_erase Finset.univ (fun l => (Function.update s.proc k u l).left)
      (Finset.mem_univ k)
    dsimp only at hbefore hafter ⊢
    rw [hrest, Function.update_self] at hafter
    rw [List.length_append, List.length_singleton]
    omega

/-- **Every run ends, and then all messages have been delivered.** On a queue of unlimited capacity
that held no message of type 1: no run has more than nine statements for each process, in whatever
order they come; some process can run a statement until all are done; and then the texts that the
threads have received are, byte for byte, those that the `main`s have sent, no message of type 1 is
left, and each process has added a message of type 2. -/
theorem processes_finish {ι : Type} [DecidableEq ι] [Fintype ι] (frames : ι → Frames)
    (args : ι → CString) (mem : ι → Memory) (q₀ : List Message) (hq₀ : ∀ y ∈ q₀, y.mtype ≠ 1)
    (run : List (ι × Stmt)) (s : Processes ι)
    (h : exec (processesStep none frames args) (.init mem q₀) run = some s) :
    run.length ≤ 9 * Fintype.card ι ∧
      ((∃ k, (s.proc k).main ≠ .done) → ∃ x, (processesStep none frames args s x).isSome) ∧
      ((∀ k, (s.proc k).main = .done) → run.length = 9 * Fintype.card ι ∧
        Finset.univ.val.map (fun k => (s.proc k).received.map Msg.text) =
          Finset.univ.val.map (fun k => (s.proc k).sent.map Msg.text) ∧
        ofType 1 s.queue = [] ∧
        (ofType 2 s.queue).length = (ofType 2 q₀).length + Fintype.card ι) := by
  have hown : OwnRequests q₀ := by
    have hnone : ofType 1 q₀ = [] := by simpa [ofType] using hq₀
    simp [OwnRequests, hnone]
  obtain ⟨hrefined, ok⟩ := processes_refine hown h
  have cok := reachable_concurrentOk hrefined
  have hleft := length_add_left hown h
  refine ⟨by omega, ?_, fun hdone => ?_⟩
  · rintro ⟨k, hk⟩
    obtain ⟨⟨l, a⟩, hstep⟩ := cok.exists_step hq₀ (mt inst_main_eq_done.1 hk)
    rw [concurrentStep, Option.isSome_map] at hstep
    obtain ⟨c, hc⟩ := exists_stmt (p := { s.proc l with queue := s.queue }) hstep
    exact ⟨(l, c), by rwa [processesStep, Option.isSome_map]⟩
  · have hall : ∀ k, ((s.instances frames).inst k).main = .done :=
      fun k => inst_main_eq_done.2 (hdone k)
    obtain ⟨htexts, hrequests, hreplies⟩ := cok.finished hq₀ hall
    refine ⟨?_, ?_, hrequests, hreplies⟩
    · have hzero : ∀ k ∈ Finset.univ, (s.proc k).left = 0 := by
        intro k _
        obtain ⟨buffer, hthr⟩ := (cok.inst k).joined (hall k)
        exact left_eq_zero (hdone k) hthr
      rw [Finset.sum_eq_zero hzero] at hleft
      exact hleft
    · have hreceived : ∀ k, (s.proc k).received.map Msg.text =
          ((s.instances frames).inst k).received := fun k => (ok.kept k).inst_received.symm
      have hsent : ∀ k, (s.proc k).sent.map Msg.text = some (payloads frames args mem k) := by
        intro k
        rw [(ok.proc k).sent_of_taken (.inr (hall k))]
        rfl
      simp only [hreceived, hsent]
      exact htexts

theorem processes_finish_alone :
    ∃ s : Processes (Fin 1), exec (processesStep none (fun _ => ⟨0, 1024, .inl (by decide)⟩)
        fun _ => ⟨[104], by decide⟩) (.init (fun _ _ => 0) [])
        [(0, .create), (0, .mainMtype), (0, .strncpy), (0, .mainSend), (0, .receive), (0, .printf),
          (0, .thrMtype), (0, .reply), (0, .join)] = some s ∧ (ofType 2 s.queue).length = 1 := by
  have hsome : ∃ s ∈ exec (processesStep none (fun _ => ⟨0, 1024, .inl (by decide)⟩)
      fun _ => ⟨[104], by decide⟩) (.init (fun _ _ => 0) [])
      [((0 : Fin 1), .create), (0, .mainMtype), (0, .strncpy), (0, .mainSend), (0, .receive),
        (0, .printf), (0, .thrMtype), (0, .reply), (0, .join)],
      ∀ k, (s.proc k).main = .done := by
    decide +kernel
  obtain ⟨s, hs, hdone⟩ := hsome
  obtain ⟨-, -, hfinished⟩ := processes_finish _ _ _ [] (by simp) _ s hs
  exact ⟨s, hs, (hfinished hdone).2.2.2⟩

end Starrysky.Msgqueue
