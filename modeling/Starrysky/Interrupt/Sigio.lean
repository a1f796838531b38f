import Starrysky.Interrupt.Fasync

/-!
# The test program of `interrupt-1-fasync`

Any number of processes run `main` beside the driver of `Fasync`: each installs `sig_handler`, opens
the device, makes itself the owner of its file and switches `FASYNC` on, and looks at the result of
no call. The kernel sends `SIGIO` to the owner of each file that `kill_fasync` finds, and a `SIGIO`
that is pending is not sent twice. By the order of its calls no process is ended by a `SIGIO`, and
each callback reaches exactly the processes whose last call has succeeded (`sigio_reaches`).
-/

namespace Starrysky.Interrupt

open Transition

/-- Where `main` stands, by the call that comes next; behind the calls it loops. -/
inductive MainPc where
  | signal
  | opens
  | setOwn
  | setFl
  | loop
  | exited
  deriving DecidableEq

/-- A process, with its file: `handler` is that `sig_handler` is installed, `owner` that the process
owns the file, and `fasync` that `FASYNC` is switched on. `killed` is that the default action of
`SIGIO` has ended the process; `sent` counts the callbacks that have sent it, and `handled` the runs
of `sig_handler`. -/
structure Proc where
  pc : MainPc
  handler : Bool
  fd : Int32
  owner : Bool
  fasync : Bool
  pending : Bool
  killed : Bool
  sent : ℕ
  handled : ℕ

def Proc.init : Proc :=
  { pc := .signal, handler := false, fd := -1, owner := false, fasync := false, pending := false
    killed := false, sent := 0, handled := 0 }

/-- The driver and the processes. The file that the process `p` opens is `p`. -/
structure Clients (P : Type) where
  driver : FasyncState P
  procs : P → Proc

inductive ClientsAct (P : Type) where
  /-- the timer, the callback or `hello_exit` -/
  | driver (a : Act P)
  /-- `signal(SIGIO, sig_handler)` -/
  | signal (p : P)
  /-- `open("/dev/miscdev", O_RDWR)`, which returns `fd` -/
  | opens (p : P) (fd : Int32)
  /-- `fcntl(fd, F_SETOWN, getpid())` -/
  | setOwn (p : P)
  /-- `fcntl(fd, F_SETFL, fcntl(fd, F_GETFL) | FASYNC)`; `err` is what `fasync_helper` fails with,
  if it fails -/
  | setFl (p : P) (err : Option Int32)
  /-- a `SIGIO` is delivered -/
  | deliver (p : P)
  /-- the process is ended from outside, since `main` does not return -/
  | exit (p : P)

variable {P : Type}

def Clients.init : Clients P := { driver := .init, procs := fun _ => .init }

/-- A `SIGIO` for the owner of the file. -/
def Proc.send (x : Proc) : Proc :=
  if x.owner then { x with pending := true, sent := x.sent + 1 } else x

/-- The step is one of the kernel or of the module. -/
def Act.isOwn : Act P → Bool
  | .expire | .stmt | .exit | .exitStmt => true
  | .opens _ | .release _ => false

theorem mem_signalled {d : FasyncState P} {a : Act P} {p : P} (h : p ∈ signalled d (.base a)) :
    p ∈ d.asyncQueue := by
  cases a with
  | stmt =>
    simp only [signalled] at h
    split at h
    · exact h
    · cases h
  | opens | release | expire | exit | exitStmt => cases h

variable [DecidableEq P]

def Clients.setProc (s : Clients P) (p : P) (x : Proc) : Clients P :=
  { s with procs := Function.update s.procs p x }

/-- The end of a process closes its file. -/
def Clients.close (s : Clients P) (p : P) : Option (FasyncState P) :=
  if 0 ≤ (s.procs p).fd then fasyncStep s.driver (.base (.release p)) else some s.driver

def clientsStep (s : Clients P) : ClientsAct P → Option (Clients P)
  | .driver a =>
    if a.isOwn then
      (fasyncStep s.driver (.base a)).map fun driver =>
        { driver
          procs := fun p =>
            if p ∈ signalled s.driver (.base a) then (s.procs p).send else s.procs p }
    else none
  | .signal p =>
    if (s.procs p).pc = .signal then
      some (s.setProc p { s.procs p with pc := .opens, handler := true })
    else none
  | .opens p fd =>
    if (s.procs p).pc = .opens then
      if 0 ≤ fd then
        (fasyncStep s.driver (.base (.opens p))).map fun driver =>
          { s.setProc p { s.procs p with pc := .setOwn, fd } with driver }
      else some (s.setProc p { s.procs p with pc := .setOwn, fd })
    else none
  | .setOwn p =>
    if (s.procs p).pc = .setOwn then
      some (s.setProc p { s.procs p with pc := .setFl, owner := 0 ≤ (s.procs p).fd })
    else none
  | .setFl p err =>
    let x := s.procs p
    if x.pc = .setFl then
      if 0 ≤ x.fd then
        let ret := (demoFasync x.fd p 1 err s.driver.asyncQueue).1
        (fasyncStep s.driver (.fasync p x.fd 1 err ret)).map fun driver =>
          { s.setProc p { x with pc := .loop, fasync := ret = 0 } with driver }
      else some (s.setProc p { x with pc := .loop })
    else none
  | .deliver p =>
    let x := s.procs p
    if x.pending = true ∧ x.pc ≠ .exited then
      if x.handler then some (s.setProc p { x with pending := false, handled := x.handled + 1 })
      else (s.close p).map fun driver =>
        { s.setProc p { x with pc := .exited, killed := true } with driver }
    else none
  | .exit p =>
    if (s.procs p).pc ≠ .exited then
      (s.close p).map fun driver => { s.setProc p { s.procs p with pc := .exited } with driver }
    else none

/-- What holds of a process, given whether its file is open and in the `async_queue`. -/
structure ProcOk (x : Proc) (opened queued : Prop) : Prop where
  killed : x.killed = false
  handler : x.pc ≠ .signal → x.pc ≠ .exited → x.handler = true
  pending : x.pending = true → x.handler = true
  opened : opened ↔ 0 ≤ x.fd ∧ x.pc ≠ .exited
  fd : x.pc = .signal ∨ x.pc = .opens → ¬ 0 ≤ x.fd
  owner : x.pc = .setFl ∨ x.pc = .loop → 0 ≤ x.fd → x.owner = true
  queued : queued ↔ x.pc = .loop ∧ x.fasync = true
  fasync : x.fasync = true → 0 ≤ x.fd ∧ (x.pc = .loop ∨ x.pc = .exited)
  sent_le : x.handled + x.pending.toNat ≤ x.sent
  sent_pos : 0 < x.sent → 0 < x.handled + x.pending.toNat

/-- What holds of the driver and the processes. -/
structure ClientsOk (s : Clients P) : Prop where
  nodup : s.driver.asyncQueue.Nodup
  proc : ∀ p, ProcOk (s.procs p) (p ∈ s.driver.opened) (p ∈ s.driver.asyncQueue)

variable {s t : Clients P} {a : ClientsAct P} {run : List (ClientsAct P)} {p q : P} {x : Proc}
  {driver : FasyncState P} {opened queued : Prop}

/-! ## What the steps of the driver leave -/

theorem own_eq {a : Act P} (ha : a.isOwn) (h : fasyncStep s.driver (.base a) = some driver) :
    driver.opened = s.driver.opened ∧ driver.asyncQueue = s.driver.asyncQueue := by
  obtain ⟨u, hu, rfl⟩ := Option.map_eq_some_iff.1 h
  cases steps_of_step hu with
  | opens | release => cases ha
  | expire | stmt | exit | exitStmt => exact ⟨rfl, rfl⟩

theorem opens_eq (h : fasyncStep s.driver (.base (.opens p)) = some driver) :
    driver.opened = insert p s.driver.opened ∧ driver.asyncQueue = s.driver.asyncQueue := by
  obtain ⟨u, hu, rfl⟩ := Option.map_eq_some_iff.1 h
  cases steps_of_step hu with
  | opens => exact ⟨rfl, rfl⟩

theorem release_eq (h : fasyncStep s.driver (.base (.release p)) = some driver) :
    driver.opened = s.driver.opened.erase p ∧
      driver.asyncQueue = s.driver.asyncQueue.erase p := by
  obtain ⟨u, hu, rfl⟩ := Option.map_eq_some_iff.1 h
  cases steps_of_step hu with
  | release => exact ⟨rfl, by simp [demoFasync_off]⟩

/-- The file of a process that ends is closed, and the others stay as they are. -/
theorem close_eq (hs : ClientsOk s) (h : s.close p = some driver) :
    driver.asyncQueue.Nodup ∧ p ∉ driver.opened ∧ p ∉ driver.asyncQueue ∧
      ∀ q, q ≠ p → (q ∈ driver.opened ↔ q ∈ s.driver.opened) ∧
        (q ∈ driver.asyncQueue ↔ q ∈ s.driver.asyncQueue) := by
  have ok := hs.proc p
  by_cases hfd : 0 ≤ (s.procs p).fd
  · obtain ⟨hopened, hqueue⟩ := release_eq ((if_pos hfd).symm.trans h)
    rw [hopened, hqueue]
    refine ⟨hs.nodup.erase p, by simp, by simp [hs.nodup.mem_erase_iff], fun q hq => ?_⟩
    exact ⟨by simp [hq], List.mem_erase_of_ne hq⟩
  · obtain rfl : s.driver = driver := Option.some.inj ((if_neg hfd).symm.trans h)
    refine ⟨hs.nodup, fun hopen => hfd (ok.opened.1 hopen).1, fun hqueued => ?_, by simp⟩
    exact hfd (ok.fasync (ok.queued.1 hqueued).2).1

/-! ## What the steps leave of a process -/

theorem ProcOk.send (ok : ProcOk x opened queued) (hqueued : queued) :
    ProcOk x.send opened queued ∧ x.send.pending = true ∧ x.send.sent = x.sent + 1 := by
  obtain ⟨hpc, hfasync⟩ := ok.queued.1 hqueued
  have howner : x.owner = true := ok.owner (.inr hpc) (ok.fasync hfasync).1
  have hhandler : x.handler = true := ok.handler (by simp [hpc]) (by simp [hpc])
  have hle := ok.sent_le
  rw [Proc.send, if_pos howner]
  refine ⟨{ ok with pending := fun _ => hhandler, sent_le := ?_, sent_pos := fun _ => ?_ },
    rfl, rfl⟩
  · simp only [Bool.toNat_true]
    omega
  · simp

theorem ProcOk.deliver (ok : ProcOk x opened queued) (hpending : x.pending = true) :
    ProcOk { x with pending := false, handled := x.handled + 1 } opened queued := by
  have hle := ok.sent_le
  rw [hpending, Bool.toNat_true] at hle
  exact { ok with pending := nofun, sent_le := hle, sent_pos := fun _ => by simp }

theorem ProcOk.signal (ok : ProcOk x opened queued) (hpc : x.pc = .signal) :
    ProcOk { x with pc := .opens, handler := true } opened queued := by
  refine { ok with
    handler := fun _ _ => rfl, pending := fun _ => rfl, opened := ?_
    fd := fun _ => ok.fd (.inl hpc), owner := by simp, queued := ?_, fasync := ?_ }
  · simpa [hpc] using ok.opened
  · simpa [hpc] using ok.queued
  · simpa [hpc] using ok.fasync

theorem ProcOk.opens (fd : Int32) (ok : ProcOk x opened queued) (hpc : x.pc = .opens) :
    ProcOk { x with pc := .setOwn, fd } (0 ≤ fd) queued := by
  have hhandler : x.handler = true := ok.handler (by simp [hpc]) (by simp [hpc])
  refine { ok with
    handler := fun _ _ => hhandler, opened := by simp, fd := by simp, owner := by simp
    queued := ?_, fasync := ?_ }
  · simpa [hpc] using ok.queued
  · simpa [hpc] using ok.fasync

theorem ProcOk.setOwn (ok : ProcOk x opened queued) (hpc : x.pc = .setOwn) :
    ProcOk { x with pc := .setFl, owner := 0 ≤ x.fd } opened queued := by
  have hhandler : x.handler = true := ok.handler (by simp [hpc]) (by simp [hpc])
  refine { ok with
    handler := fun _ _ => hhandler, opened := ?_, fd := by simp
    owner := fun _ h => by simpa using h, queued := ?_, fasync := ?_ }
  · simpa [hpc] using ok.opened
  · simpa [hpc] using ok.queued
  · simpa [hpc] using ok.fasync

theorem ProcOk.setFl (on : Bool) (ok : ProcOk x opened queued) (hpc : x.pc = .setFl)
    (hon : on = true → 0 ≤ x.fd) :
    ProcOk { x with pc := .loop, fasync := on } opened (on = true) := by
  have hhandler : x.handler = true := ok.handler (by simp [hpc]) (by simp [hpc])
  refine { ok with
    handler := fun _ _ => hhandler, opened := ?_, fd := by simp
    owner := fun _ => ok.owner (.inl hpc), queued := by simp, fasync := fun h => ⟨hon h, .inl rfl⟩ }
  simpa [hpc] using ok.opened

theorem ProcOk.exit (ok : ProcOk x opened queued) :
    ProcOk { x with pc := .exited } False False :=
  { ok with
    handler := by simp, opened := by simp, fd := by simp, owner := by simp, queued := by simp
    fasync := fun h => ⟨(ok.fasync h).1, .inr rfl⟩ }

/-- A step of one process: it does as the process must, and leaves the other processes alone. -/
theorem ClientsOk.of_proc (hs : ClientsOk s) (hnodup : driver.asyncQueue.Nodup)
    (hp : ProcOk x (p ∈ driver.opened) (p ∈ driver.asyncQueue))
    (hothers : ∀ q, q ≠ p → (q ∈ driver.opened ↔ q ∈ s.driver.opened) ∧
      (q ∈ driver.asyncQueue ↔ q ∈ s.driver.asyncQueue)) :
    ClientsOk { s.setProc p x with driver } := by
  refine ⟨hnodup, fun q => ?_⟩
  by_cases hq : q = p
  · subst hq
    simpa [Clients.setProc] using hp
  · obtain ⟨hopened, hqueue⟩ := hothers q hq
    simpa [Clients.setProc, hq, hopened, hqueue] using hs.proc q

/-- A step of the driver, of a process or of the kernel keeps each process in order, with its file
in the queue exactly if its last `fcntl` has succeeded. -/
theorem ClientsOk.step (hs : ClientsOk s) (h : clientsStep s a = some t) : ClientsOk t := by
  cases a with
  | driver a =>
    obtain ⟨ha, h⟩ := Option.ite_none_right_eq_some.1 h
    obtain ⟨driver, hdriver, rfl⟩ := Option.map_eq_some_iff.1 h
    obtain ⟨hopened, hqueue⟩ := own_eq ha hdriver
    refine ⟨by rw [hqueue]; exact hs.nodup, fun p => ?_⟩
    rw [hopened, hqueue]
    dsimp only
    split
    · next hsignalled => exact ((hs.proc p).send (mem_signalled hsignalled)).1
    · exact hs.proc p
  | signal p =>
    obtain ⟨hpc, ⟨⟩⟩ := Option.ite_none_right_eq_some.1 h
    exact hs.of_proc hs.nodup ((hs.proc p).signal hpc) (by simp)
  | opens p fd =>
    obtain ⟨hpc, h⟩ := Option.ite_none_right_eq_some.1 h
    have ok := (hs.proc p).opens fd hpc
    by_cases hfd : 0 ≤ fd
    · rw [if_pos hfd] at h
      obtain ⟨driver, hdriver, rfl⟩ := Option.map_eq_some_iff.1 h
      obtain ⟨hopened, hqueue⟩ := opens_eq hdriver
      refine hs.of_proc (by rw [hqueue]; exact hs.nodup) ?_ fun q hq => ?_
      · simpa [hopened, hqueue, hfd] using ok
      · simp [hopened, hqueue, hq]
    · rw [if_neg hfd] at h
      cases h
      have hclosed : p ∉ s.driver.opened := fun hopen =>
        (hs.proc p).fd (.inr hpc) ((hs.proc p).opened.1 hopen).1
      exact hs.of_proc hs.nodup (by simpa [hclosed, hfd] using ok) (by simp)
  | setOwn p =>
    obtain ⟨hpc, ⟨⟩⟩ := Option.ite_none_right_eq_some.1 h
    exact hs.of_proc hs.nodup ((hs.proc p).setOwn hpc) (by simp)
  | setFl p err =>
    obtain ⟨hpc, h⟩ := Option.ite_none_right_eq_some.1 h
    have hoff : p ∉ s.driver.asyncQueue := by simp [(hs.proc p).queued, hpc]
    by_cases hfd : 0 ≤ (s.procs p).fd
    · rw [if_pos hfd] at h
      obtain ⟨driver, hdriver, rfl⟩ := Option.map_eq_some_iff.1 h
      obtain ⟨⟨-, herr, -⟩, ⟨⟩⟩ := Option.ite_none_right_eq_some.1 hdriver
      refine hs.of_proc (demoFasync_nodup herr hs.nodup) ?_ fun q hq => ?_
      · simpa [mem_demoFasync herr hs.nodup, hoff] using
          (hs.proc p).setFl ((demoFasync (s.procs p).fd p 1 err s.driver.asyncQueue).1 = 0) hpc
            fun _ => hfd
      · simp [mem_demoFasync herr hs.nodup, Ne.symm hq]
    · rw [if_neg hfd] at h
      cases h
      have hfasync : (s.procs p).fasync = false :=
        Bool.eq_false_iff.2 fun h => hfd ((hs.proc p).fasync h).1
      refine hs.of_proc hs.nodup ?_ (by simp)
      simpa [hoff, hfasync] using (hs.proc p).setFl false hpc nofun
  | deliver p =>
    obtain ⟨⟨hpending, -⟩, h⟩ := Option.ite_none_right_eq_some.1 h
    rw [if_pos ((hs.proc p).pending hpending)] at h
    cases h
    exact hs.of_proc hs.nodup ((hs.proc p).deliver hpending) (by simp)
  | exit p =>
    obtain ⟨hpc, h⟩ := Option.ite_none_right_eq_some.1 h
    obtain ⟨driver, hdriver, rfl⟩ := Option.map_eq_some_iff.1 h
    obtain ⟨hnodup, hopened, hqueue, hothers⟩ := close_eq hs hdriver
    exact hs.of_proc hnodup (by simpa [hopened, hqueue] using (hs.proc p).exit) hothers

/-- In every run each process is in order, with its file in the queue exactly if its last `fcntl`
has succeeded. -/
theorem reachable_clientsOk (h : exec clientsStep .init run = some s) : ClientsOk s := by
  refine exec_induction (P := fun _ s => ClientsOk s) ⟨List.nodup_nil, fun p => ?_⟩ ?_ h
  · constructor <;> simp [Clients.init, Proc.init, FasyncState.init, State.init]
  · exact fun _ hs hstep => hs.step hstep

/-- **`SIGIO` reaches the processes.** In every run of any number of processes, with opens and
`fcntl`s that fail and processes that are ended from outside: no process is ended by a `SIGIO`; the
callback sends one to exactly the processes in their loop whose `fcntl` has switched `FASYNC` on,
and leaves it pending; and `sig_handler` has run at most once for each callback that has sent one,
and if any has, it has run or the `SIGIO` is pending. -/
theorem sigio_reaches {P : Type} [DecidableEq P] (run : List (ClientsAct P)) (s : Clients P)
    (h : exec clientsStep .init run = some s) (p : P) :
    (s.procs p).killed = false ∧
      (∀ t, clientsStep s (.driver .stmt) = some t → s.driver.callback.head? = some .killFasync →
        if (s.procs p).pc = .loop ∧ (s.procs p).fasync = true then
          (t.procs p).pending = true ∧ (t.procs p).sent = (s.procs p).sent + 1
        else t.procs p = s.procs p) ∧
      (s.procs p).handled + (s.procs p).pending.toNat ≤ (s.procs p).sent ∧
      (0 < (s.procs p).sent → 0 < (s.procs p).handled + (s.procs p).pending.toNat) := by
  have hs := reachable_clientsOk h
  have ok := hs.proc p
  refine ⟨ok.killed, fun t ht hkill => ?_, ok.sent_le, ok.sent_pos⟩
  obtain ⟨driver, hdriver, rfl⟩ := Option.map_eq_some_iff.1 ht
  have hsignalled : p ∈ signalled s.driver (.base .stmt) ↔
      (s.procs p).pc = .loop ∧ (s.procs p).fasync = true := by
    rw [signalled, if_pos hkill, ok.queued]
  by_cases hmem : p ∈ signalled s.driver (.base .stmt)
  · simp only [if_pos hmem, if_pos (hsignalled.1 hmem)]
    exact (ok.send (mem_signalled hmem)).2
  · simp only [if_neg hmem, if_neg (mt hsignalled.2 hmem)]

/-- Of two processes one switches `FASYNC` on, and gets the `SIGIO` of the first callback before the
second one. -/
theorem sigio_reaches_one : ∃ s : Clients (Fin 2), exec clientsStep .init
      [.signal 0, .signal 1, .opens 0 3, .opens 1 3, .setOwn 1, .setFl 1 (some (-12)), .setOwn 0,
        .setFl 0 none, .driver .expire, .driver .stmt, .driver .stmt, .driver .stmt, .driver .stmt,
        .deliver 0] = some s ∧
    (s.procs 0).handled + (s.procs 0).pending.toNat ≤ (s.procs 0).sent ∧
    (s.procs 1).killed = false := by
  have hsome : (exec clientsStep (Clients.init : Clients (Fin 2))
      [.signal 0, .signal 1, .opens 0 3, .opens 1 3, .setOwn 1, .setFl 1 (some (-12)), .setOwn 0,
        .setFl 0 none, .driver .expire, .driver .stmt, .driver .stmt, .driver .stmt, .driver .stmt,
        .deliver 0]).isSome := by
    decide +kernel
  obtain ⟨s, hs⟩ := Option.isSome_iff_exists.1 hsome
  exact ⟨s, hs, (sigio_reaches _ s hs 0).2.2.1, (sigio_reaches _ s hs 1).1⟩

end Starrysky.Interrupt
