import Starrysky.Press.Calls

/-!
# The epoll client

The test program of `interrupt-3-epoll` registers the device with an epoll instance `epfd` and reads
the device whenever `epoll_wait` returns something else than 0. It passes `epoll_wait` the device
itself, `fd`, which is not an epoll instance. The machine runs this loop beside the callback,
without signals, for either descriptor. On `fd` no read is ever preceded by a report
(`gated_iff_fd`); on `epfd` all are, and none blocks (`gated_epfd`).
-/

namespace Starrysky.Press

open Transition

/-- The descriptors of `main`. -/
inductive Descriptor where
  | fd
  | epfd
  deriving DecidableEq

/-- How `epoll_wait` ends. -/
inductive EpollResult where
  | ready
  | timeout
  | error
  deriving DecidableEq

/-- What `epoll_wait` returns. -/
def EpollResult.ret : EpollResult → Int32
  | .ready => 1
  | .timeout => 0
  | .error => -1

/-- Where `main` stands: before `epoll_ctl`, in `epoll_wait`, behind it, or at or in `read`. -/
inductive EpollPc where
  | setup
  | wait
  | returned
  | read
  deriving DecidableEq

/-- The driver with one process, which runs `main`, the variable `ret`, and whether the epoll
instance has the device on its list of ready files. -/
structure EpollClient where
  sys : WaitState Unit
  pc : EpollPc
  ret : Int32
  listed : Bool

inductive EpollAct where
  | expire
  | stmt (c : Stmt)
  | proc (r : ProcStep)
  /-- `epoll_ctl(epfd, EPOLL_CTL_ADD, fd, &ev)` -/
  | ctl
  /-- `ret = epoll_wait(…)` -/
  | wait (r : EpollResult)
  /-- `if (ret)` -/
  | branch
  deriving DecidableEq

/-- The client has opened the device. -/
def EpollClient.init : EpollClient :=
  { sys := .init .interrupt3Epoll, pc := .setup, ret := 0, listed := false }

/-- How `epoll_wait` can end: on an epoll instance with the device, if it is listed and `key_poll`
reports an event, or at the timeout; on anything else with an error. -/
def EpollClient.Ends (s : EpollClient) : Descriptor → EpollResult → Prop
  | .epfd, .ready => s.listed = true ∧ keyPoll s.sys.dev ≠ 0
  | .epfd, .timeout | .fd, .error => True
  | .epfd, .error | .fd, .ready | .fd, .timeout => False

instance (s : EpollClient) (desc : Descriptor) (r : EpollResult) : Decidable (s.Ends desc r) :=
  match desc, r with
  | .epfd, .ready => inferInstanceAs (Decidable (_ ∧ _))
  | .epfd, .timeout | .fd, .error => .isTrue trivial
  | .epfd, .error | .fd, .ready | .fd, .timeout => .isFalse id

/-- A step of the client, which waits on `desc`, or of the callback. Its wake-up lists the device,
once that is registered. -/
def epollClientStep (desc : Descriptor) (s : EpollClient) : EpollAct → Option EpollClient
  | .expire => (waitStep .interrupt3Epoll s.sys .expire).map fun sys => { s with sys }
  | .stmt c => (waitStep .interrupt3Epoll s.sys (.stmt c)).map fun sys =>
    { s with sys, listed := s.listed || (c = .wakeUp && s.pc ≠ .setup) }
  | .proc r =>
    if s.pc = .read ∧ r ≠ .signal ∧ r ≠ .call .poll then
      (procStep s.sys () r).map fun sys =>
        { s with sys, pc := if (sys.procs ()).pc = .idle then .wait else .read }
    else none
  | .ctl =>
    if s.pc = .setup then some { s with pc := .wait, listed := keyPoll s.sys.dev ≠ 0 } else none
  | .wait r =>
    if s.pc = .wait ∧ s.Ends desc r then
      some { s with pc := .returned, ret := r.ret, listed := s.listed && r ≠ .ready }
    else none
  | .branch =>
    if s.pc = .returned then some { s with pc := if s.ret ≠ 0 then .read else .wait } else none

/-- The client reads only after `epoll_wait` has reported the device since the previous read. -/
def Gated (run : List EpollAct) (_ : EpollClient) (a : EpollAct) : Prop :=
  a = .proc (.call .read) → .wait .ready ∈ since (.proc (.call .read)) run

/-- The client does not sleep in a read, nor is it about to. -/
def NotBlocked (_ : List EpollAct) (s : EpollClient) : Prop :=
  (s.sys.procs ()).pc ≠ .unset .read ∧ (s.sys.procs ()).pc ≠ .asleep .read

instance (run : List EpollAct) (s : EpollClient) (a : EpollAct) : Decidable (Gated run s a) :=
  inferInstanceAs (Decidable (_ → _))

instance (run : List EpollAct) (s : EpollClient) : Decidable (NotBlocked run s) :=
  inferInstanceAs (Decidable (_ ∧ _))

variable {desc : Descriptor} {s t : EpollClient} {a : EpollAct} {run : List EpollAct}

/-! ## Waiting on `fd` -/

/-- On `fd` nothing is ever reported. -/
theorem ready_notMem (h : exec (epollClientStep .fd) .init run = some s) : .wait .ready ∉ run := by
  refine exec_induction (P := fun run _ => .wait .ready ∉ run) (by simp) ?_ h
  intro run s a t _ ih hstep
  simp only [List.mem_append, List.mem_singleton, not_or]
  refine ⟨ih, ?_⟩
  rintro rfl
  obtain ⟨⟨-, hends⟩, -⟩ := Option.ite_none_right_eq_some.1 hstep
  exact hends

/-- A process that has issued no read is idle. -/
theorem idle_of_no_read (h : exec (epollClientStep desc) .init run = some s)
    (hno : .proc (.call .read) ∉ run) : (s.sys.procs ()).pc = .idle := by
  refine exec_induction (P := fun run s => .proc (.call .read) ∉ run → (s.sys.procs ()).pc = .idle)
    (fun _ => rfl) ?_ h hno
  intro run s a t _ ih hstep hno
  simp only [List.mem_append, List.mem_singleton, not_or] at hno
  have hidle := ih hno.1
  cases a with
  | expire | stmt c =>
    obtain ⟨sys, hsys, ⟨⟩⟩ := Option.map_eq_some_iff.1 hstep
    cases waitSteps_of_waitStep hsys <;> exact hidle
  | ctl | wait | branch =>
    obtain ⟨-, ⟨⟩⟩ := Option.ite_none_right_eq_some.1 hstep
    exact hidle
  | proc r =>
    obtain ⟨⟨-, -, hpoll⟩, hstep⟩ := Option.ite_none_right_eq_some.1 hstep
    obtain ⟨sys, hsys, ⟨⟩⟩ := Option.map_eq_some_iff.1 hstep
    obtain ⟨c, rfl, -⟩ := (procSteps_of_procStep hsys).of_idle hidle
    cases c with
    | poll => exact absurd rfl hpoll
    | read => exact absurd rfl hno.2

/-- **No read of the client is gated.** In a run of the client as it is, which waits on `fd`, every
read comes after a report since the previous read and none blocks, if and only if the client has
issued no read at all. -/
theorem gated_iff_fd (run : List EpollAct) (s : EpollClient)
    (h : exec (epollClientStep .fd) .init run = some s) :
    Meets (epollClientStep .fd) .init Gated run ∧
        Throughout (epollClientStep .fd) .init NotBlocked run ↔
      .proc (.call .read) ∉ run := by
  constructor
  · rintro ⟨hgated, -⟩ hread
    obtain ⟨pre, post, rfl⟩ := List.append_of_mem hread
    obtain ⟨u, hu, -⟩ := exec_split h
    have hready := hgated pre _ post u rfl hu rfl
    exact ready_notMem hu (since_suffix.subset hready)
  · intro hno
    refine ⟨?_, ?_⟩
    · rintro pre a post u rfl - rfl
      simp at hno
    · rintro pre post u rfl hu
      have hidle := idle_of_no_read hu fun hin => hno (List.mem_append_left _ hin)
      simp [NotBlocked, hidle]

theorem gated_before_read :
    Meets (epollClientStep .fd) .init Gated [.ctl, .expire, .wait .error, .branch] ∧
      Throughout (epollClientStep .fd) .init NotBlocked [.ctl, .expire, .wait .error, .branch] := by
  obtain ⟨s, hs⟩ : ∃ s, exec (epollClientStep .fd) .init
      [.ctl, .expire, .wait .error, .branch] = some s := ⟨_, rfl⟩
  exact (gated_iff_fd _ s hs).2 (by decide)

/-- `epoll_wait` fails at once, and the client reads and sleeps, before any callback. -/
theorem not_gated_read_after_error :
    ¬ Meets (epollClientStep .fd) .init Gated
        [.ctl, .wait .error, .branch, .proc (.call .read), .proc .queue, .proc .test,
          .proc .sleep] ∧
      ¬ Throughout (epollClientStep .fd) .init NotBlocked
        [.ctl, .wait .error, .branch, .proc (.call .read), .proc .queue, .proc .test,
          .proc .sleep] := by
  decide +kernel

/-! ## Waiting on `epfd` -/

/-- Where `main` and its process stand together, and what holds there, on an epoll instance: `got`
is that `epoll_wait` has returned something else than 0, `reported` that it has reported the device
since the previous read, `pressed` that the flag is up. -/
inductive EpollInside (got reported pressed : Prop) : EpollPc → WaitPc → Prop
  | setup : EpollInside got reported pressed .setup .idle
  | wait : EpollInside got reported pressed .wait .idle
  | returned : (got → reported ∧ pressed) → EpollInside got reported pressed .returned .idle
  | beforeRead : reported → pressed → EpollInside got reported pressed .read .idle
  | reading {w : WaitPc} : Reading pressed w → EpollInside got reported pressed .read w

/-- What holds in every run of a client that waits on `epfd`. -/
structure EpollClientOk (run : List EpollAct) (s : EpollClient) : Prop where
  wait : WaitOk .interrupt3Epoll s.sys
  inside : EpollInside (s.ret ≠ 0) (.wait .ready ∈ since (.proc (.call .read)) run)
    s.sys.dev.Pressed s.pc (s.sys.procs ()).pc

theorem EpollInside.imp {got got' reported reported' pressed pressed' : Prop} {pc : EpollPc}
    {w : WaitPc} (h : EpollInside got reported pressed pc w) (hg : got' → got)
    (hr : reported → reported') (hp : pressed → pressed') :
    EpollInside got' reported' pressed' pc w := by
  cases h with
  | setup => exact .setup
  | wait => exact .wait
  | returned h => exact .returned fun hgot => (h (hg hgot)).imp hr hp
  | beforeRead h h' => exact .beforeRead (hr h) (hp h')
  | reading h => exact .reading (h.imp hp)

theorem EpollInside.not_blocked {got reported pressed : Prop} {pc : EpollPc} {w : WaitPc}
    (h : EpollInside got reported pressed pc w) : w ≠ .unset .read ∧ w ≠ .asleep .read := by
  cases h with
  | setup | wait | returned | beforeRead => simp
  | reading h => exact h.not_blocked

/-- **Step lemma** for the process of the client. -/
theorem EpollInside.proc {got reported reported' : Prop} {sys sys' : WaitState Unit} {r : ProcStep}
    (h : EpollInside got reported sys.dev.Pressed .read (sys.procs ()).pc)
    (hsignal : r ≠ .signal) (hpoll : r ≠ .call .poll) (hproc : ProcSteps sys () r sys') :
    EpollInside got reported' sys'.dev.Pressed
      (if (sys'.procs ()).pc = .idle then .wait else .read) (sys'.procs ()).pc := by
  generalize hw : (sys.procs ()).pc = w at h
  cases h with
  | beforeRead _ hp =>
    obtain ⟨c, rfl, hdev, hpc⟩ := hproc.of_idle hw
    cases c with
    | poll => exact absurd rfl hpoll
    | read => simpa [hpc, hdev] using .reading (.queueing hp)
  | reading hread =>
    subst hw
    rcases hread.proc hsignal hproc with hread | hidle
    · simpa [hread.ne_idle] using .reading hread
    · simpa [hidle] using .wait

/-- A step of a client that waits on `epfd` comes to a read only behind a report of the event. -/
theorem EpollClientOk.step (ok : EpollClientOk run s) (h : epollClientStep .epfd s a = some t) :
    EpollClientOk (run ++ [a]) t := by
  have hinside := ok.inside
  have hreported : a ≠ .proc (.call .read) → .wait .ready ∈ since (.proc (.call .read)) run →
      .wait .ready ∈ since (.proc (.call .read)) (run ++ [a]) := by
    intro hne hin
    rw [since_concat_of_ne hne]
    exact List.mem_append_left _ hin
  cases a with
  | expire =>
    obtain ⟨sys, hsys, ⟨⟩⟩ := Option.map_eq_some_iff.1 h
    refine ⟨ok.wait.step hsys, ?_⟩
    cases waitSteps_of_waitStep hsys with
    | expire => exact hinside.imp id (hreported (by simp)) id
  | stmt c =>
    obtain ⟨sys, hsys, ⟨⟩⟩ := Option.map_eq_some_iff.1 h
    refine ⟨ok.wait.step hsys, ?_⟩
    cases waitSteps_of_waitStep hsys with
    | wakeUp => exact hinside.imp id (hreported (by simp)) id
    | stmt => exact hinside.imp id (hreported (by simp)) exec_pressed
  | proc r =>
    obtain ⟨⟨hpc, hsignal, hpoll⟩, h⟩ := Option.ite_none_right_eq_some.1 h
    obtain ⟨sys, hsys, ⟨⟩⟩ := Option.map_eq_some_iff.1 h
    have hproc := procSteps_of_procStep hsys
    rw [hpc] at hinside
    exact ⟨ok.wait.proc hproc, hinside.proc hsignal hpoll hproc⟩
  | ctl =>
    obtain ⟨hpc, ⟨⟩⟩ := Option.ite_none_right_eq_some.1 h
    refine ⟨ok.wait, ?_⟩
    rw [hpc] at hinside
    generalize (s.sys.procs ()).pc = w at hinside
    cases hinside with
    | setup => exact .wait
  | wait r =>
    obtain ⟨⟨hpc, hends⟩, ⟨⟩⟩ := Option.ite_none_right_eq_some.1 h
    refine ⟨ok.wait, ?_⟩
    rw [hpc] at hinside
    generalize (s.sys.procs ()).pc = w at hinside
    cases hinside with
    | wait =>
      refine .returned fun hgot => ?_
      cases r with
      | ready =>
        refine ⟨?_, (keyPoll_ne_zero_iff ok.wait.flag).1 hends.2⟩
        rw [since_concat_of_ne (by simp)]
        simp
      | timeout => exact absurd rfl hgot
      | error => exact hends.elim
  | branch =>
    obtain ⟨hpc, ⟨⟩⟩ := Option.ite_none_right_eq_some.1 h
    refine ⟨ok.wait, ?_⟩
    rw [hpc] at hinside
    generalize (s.sys.procs ()).pc = w at hinside
    cases hinside with
    | returned hgot =>
      by_cases hret : s.ret ≠ 0
      · rw [if_pos hret]
        exact .beforeRead (hreported (by simp) (hgot hret).1) (hgot hret).2
      · rw [if_neg hret]
        exact .wait

/-- In every run a client that waits on `epfd` comes to a read only behind a report of the event. -/
theorem reachable_epollClientOk (h : exec (epollClientStep .epfd) .init run = some s) :
    EpollClientOk run s := by
  refine exec_induction ?_ (fun _ ok hstep => ok.step hstep) h
  exact ⟨.init, .setup⟩

/-- Had `main` passed `epfd` to `epoll_wait`, every read would come after a report since the
previous read, and none would block. -/
theorem gated_epfd (run : List EpollAct) (s : EpollClient)
    (h : exec (epollClientStep .epfd) .init run = some s) :
    Meets (epollClientStep .epfd) .init Gated run ∧
      Throughout (epollClientStep .epfd) .init NotBlocked run := by
  refine ⟨?_, ?_⟩
  · rintro pre a post u rfl hu rfl
    obtain ⟨t, ht, -⟩ := exec_taken h hu
    obtain ⟨⟨hpc, -⟩, ht⟩ := Option.ite_none_right_eq_some.1 ht
    obtain ⟨sys, hsys, -⟩ := Option.map_eq_some_iff.1 ht
    have hinside := (reachable_epollClientOk hu).inside
    cases procSteps_of_procStep hsys with
    | call hidle =>
      rw [hpc, hidle] at hinside
      cases hinside with
      | beforeRead hreported => exact hreported
      | reading hread => exact absurd rfl hread.ne_idle
  · rintro pre post u rfl hu
    have hinside := (reachable_epollClientOk hu).inside
    exact hinside.not_blocked

end Starrysky.Press
