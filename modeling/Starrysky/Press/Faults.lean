import Starrysky.Lib.UserCopy
import Starrysky.Press.Flag

/-!
# Signals and copy faults

`dmisc_read` ignores the result of `wait_event_interruptible`, and a fault of `copy_to_user` is only
printed. So a read that a signal has ended the wait of copies and clears `ev_press` like any other,
and so does a read after a copy that has transferred nothing: `consumed_by_delivery_iff` says when
an event is consumed without being delivered. A run without signals and faults is a run of `Flag`
(`exec_faultless`).
-/

namespace Starrysky.Press

open Transition UserCopy

/-- The arguments of `dmisc_read`. -/
structure ReadArgs where
  buf : ℕ
  count : ℕ
  deriving DecidableEq

/-- Where a process stands in `dmisc_read`. -/
inductive FaultPc where
  | idle
  | waiting (args : ReadArgs)
  /-- the wait has ended because of the flag, or by a signal -/
  | waited (args : ReadArgs) (interrupted : Bool)
  /-- the copy has failed to transfer `r` bytes -/
  | copied (args : ReadArgs) (interrupted : Bool) (r : ℕ)
  deriving DecidableEq

/-- The device, what is left of a running callback, and the readers: where each stands, and what its
latest read has stored in its memory. -/
structure FaultState (P : Type) where
  dev : Device
  cb : List Stmt
  pc : P → FaultPc
  stores : P → List Store

def FaultState.init {P : Type} (dev : Device) : FaultState P :=
  { dev, cb := [], pc := fun _ => .idle, stores := fun _ => [] }

/-- The steps of `dmisc_read`. -/
inductive FaultStep where
  | call (args : ReadArgs)
  /-- `wait_event_interruptible(key_waitq, ev_press)` finds the flag up -/
  | pass
  /-- a signal ends the wait, which has found the flag down -/
  | signal
  /-- `copy_to_user(buf, &value, 1)` fails to transfer `r` bytes -/
  | copy (r : ℕ)
  /-- `ev_press = 0` -/
  | clear
  deriving DecidableEq

/-- A statement of the callback or of a reader. -/
inductive FaultAct (P : Type) where
  | expire
  | stmt (c : Stmt)
  | read (p : P) (r : FaultStep)
  deriving DecidableEq

/-- What `copy_to_user(buf, &value, 1)` stores. -/
def Device.copyValue (dev : Device) (buf r : ℕ) : List Store :=
  (copyToUser buf [dev.value.toUInt8] r).2

/-- The read was interrupted, or its copy has failed. -/
def FaultPc.Failed : FaultPc → Prop
  | .idle | .waiting _ => False
  | .waited _ interrupted => interrupted
  | .copied _ interrupted r => interrupted ∨ r ≠ 0

instance : (pc : FaultPc) → Decidable pc.Failed
  | .idle | .waiting _ => inferInstanceAs (Decidable False)
  | .waited _ interrupted => inferInstanceAs (Decidable (interrupted = true))
  | .copied _ interrupted r => inferInstanceAs (Decidable (interrupted = true ∨ r ≠ 0))

variable {P : Type} [DecidableEq P] {d : Driver} {dev : Device} {s t : FaultState P} {p q : P}
  {r : FaultStep} {a : FaultAct P} {run : List (FaultAct P)}

/-- A step of `dmisc_read` by the process `p`. -/
def faultReadStep (s : FaultState P) (p : P) : FaultStep → Option (FaultState P)
  | .call args =>
    if s.pc p = .idle then
      some { s with
        pc := Function.update s.pc p (.waiting args)
        stores := Function.update s.stores p [] }
    else none
  | .pass =>
    match s.pc p with
    | .waiting args =>
      if s.dev.Pressed then some { s with pc := Function.update s.pc p (.waited args false) }
      else none
    | _ => none
  | .signal =>
    match s.pc p with
    | .waiting args =>
      if s.dev.Pressed then none
      else some { s with pc := Function.update s.pc p (.waited args true) }
    | _ => none
  | .copy r =>
    match s.pc p with
    | .waited args interrupted =>
      if r ≤ 1 then
        some { s with
          pc := Function.update s.pc p (.copied args interrupted r)
          stores := Function.update s.stores p (s.dev.copyValue args.buf r) }
      else none
    | _ => none
  | .clear =>
    match s.pc p with
    | .copied .. => some { s with dev := s.dev.clearPress, pc := Function.update s.pc p .idle }
    | _ => none

/-- A statement, as in `step`. -/
def faultStep (d : Driver) (s : FaultState P) : FaultAct P → Option (FaultState P)
  | .expire => if s.cb = [] then some { s with cb := hrtimerHanderInterrupt d } else none
  | .stmt c =>
    match s.cb with
    | [] => none
    | c' :: rest => if c = c' then some { s with dev := c.exec s.dev, cb := rest } else none
  | .read p r => faultReadStep s p r

/-! ## What a step can do -/

/-- The steps of a reader, with what enables them. -/
inductive FaultReads (s : FaultState P) (p : P) : FaultStep → FaultState P → Prop
  | call {args : ReadArgs} : s.pc p = .idle →
    FaultReads s p (.call args) { s with
      pc := Function.update s.pc p (.waiting args)
      stores := Function.update s.stores p [] }
  | pass {args : ReadArgs} : s.pc p = .waiting args → s.dev.Pressed →
    FaultReads s p .pass { s with pc := Function.update s.pc p (.waited args false) }
  | signal {args : ReadArgs} : s.pc p = .waiting args → ¬ s.dev.Pressed →
    FaultReads s p .signal { s with pc := Function.update s.pc p (.waited args true) }
  | copy {args : ReadArgs} {interrupted : Bool} {r : ℕ} :
    s.pc p = .waited args interrupted → r ≤ 1 →
    FaultReads s p (.copy r) { s with
      pc := Function.update s.pc p (.copied args interrupted r)
      stores := Function.update s.stores p (s.dev.copyValue args.buf r) }
  | clear {args : ReadArgs} {interrupted : Bool} {r : ℕ} : s.pc p = .copied args interrupted r →
    FaultReads s p .clear { s with
      dev := s.dev.clearPress
      pc := Function.update s.pc p .idle }

theorem faultReads_of_step (h : faultReadStep s p r = some t) : FaultReads s p r t := by
  cases r with
  | call args =>
    obtain ⟨hpc, ⟨⟩⟩ := Option.ite_none_right_eq_some.1 h
    exact .call hpc
  | pass =>
    rw [faultReadStep] at h
    split at h
    · next args hpc =>
      obtain ⟨hev, ⟨⟩⟩ := Option.ite_none_right_eq_some.1 h
      exact .pass hpc hev
    · cases h
  | signal =>
    rw [faultReadStep] at h
    split at h
    · next args hpc =>
      obtain ⟨hev, ⟨⟩⟩ := Option.ite_none_left_eq_some.1 h
      exact .signal hpc hev
    · cases h
  | copy r =>
    rw [faultReadStep] at h
    split at h
    · next args interrupted hpc =>
      obtain ⟨hr, ⟨⟩⟩ := Option.ite_none_right_eq_some.1 h
      exact .copy hpc hr
    · cases h
  | clear =>
    rw [faultReadStep] at h
    split at h
    · next args interrupted r hpc =>
      cases h
      exact .clear hpc
    · cases h

/-- The steps of the system. -/
inductive FaultSteps (d : Driver) (s : FaultState P) : FaultAct P → FaultState P → Prop
  | expire : s.cb = [] → FaultSteps d s .expire { s with cb := hrtimerHanderInterrupt d }
  | stmt {c : Stmt} {rest : List Stmt} : s.cb = c :: rest →
    FaultSteps d s (.stmt c) { s with dev := c.exec s.dev, cb := rest }
  | read {p : P} {r : FaultStep} {t : FaultState P} : FaultReads s p r t →
    FaultSteps d s (.read p r) t

theorem faultSteps_of_step (h : faultStep d s a = some t) : FaultSteps d s a t := by
  cases a with
  | expire =>
    obtain ⟨hcb, ⟨⟩⟩ := Option.ite_none_right_eq_some.1 h
    exact .expire hcb
  | stmt c =>
    rw [faultStep] at h
    split at h
    · cases h
    · next c' rest hcb =>
      obtain ⟨rfl, ⟨⟩⟩ := Option.ite_none_right_eq_some.1 h
      exact .stmt hcb
  | read p r => exact .read (faultReads_of_step h)

/-! ## What a read has stored -/

/-- What the reads in progress have stored: nothing before the copy, and the transferred bytes after
it. -/
def StoresOk (s : FaultState P) : Prop :=
  ∀ p, match s.pc p with
    | .idle => True
    | .waiting _ | .waited .. => s.stores p = []
    | .copied args _ r => r ≤ 1 ∧ ∃ dev : Device, s.stores p = dev.copyValue args.buf r

/-- A step keeps the stores of the reads in progress: none before the copy, and what was transferred
behind it. -/
theorem StoresOk.step (h : StoresOk s) (hstep : faultStep d s a = some t) : StoresOk t := by
  intro q
  have hq := h q
  cases faultSteps_of_step hstep with
  | expire | stmt => exact hq
  | @read p _ _ hr =>
    by_cases hqp : q = p
    · subst hqp
      cases hr with
      | call hpc => simp
      | pass hpc | signal hpc => simpa [hpc] using hq
      | copy hpc hr => simpa using ⟨hr, s.dev, rfl⟩
      | clear hpc => simp
    · cases hr with
      | call | pass | signal | copy | clear => simpa [hqp] using hq

/-- In every run a read has stored nothing before its copy, and what was transferred behind it. -/
theorem reachable_storesOk (h : exec (faultStep d) (FaultState.init dev) run = some s) :
    StoresOk s :=
  exec_induction (P := fun _ s => StoresOk s) (fun _ => trivial) (fun _ ih hstep => ih.step hstep) h

theorem copyValue_length {buf r : ℕ} : (dev.copyValue buf r).length = 1 - r := by
  simp [Device.copyValue, copyToUser]

/-- A copy that fails stores nothing. -/
theorem copyValue_eq_nil_iff {buf r : ℕ} : dev.copyValue buf r = [] ↔ r ≠ 0 := by
  rw [← List.length_eq_zero_iff, copyValue_length]
  omega

/-! ## Which reads consume an event -/

/-- A step consumes an event only by delivering it: only the clear of a read that has passed on the
flag and has copied takes the flag down, and a read that was interrupted or whose copy has failed
stores no byte and leaves the flag and the value as they are. -/
structure ConsumesByDelivery (s : FaultState P) (a : FaultAct P) (t : FaultState P) : Prop where
  consumed : s.dev.Pressed → ¬ t.dev.Pressed →
    ∃ p args, a = .read p .clear ∧ s.pc p = .copied args false 0
  kept : ∀ p r, a = .read p r → (s.pc p).Failed ∨ (t.pc p).Failed →
    t.dev.evPress = s.dev.evPress ∧ t.dev.value = s.dev.value
  silent : ∀ p, (t.pc p).Failed → t.stores p = []

/-- The copy of an interrupted read fails, and a read that was interrupted or whose copy has failed
finds the flag down when it clears it. -/
def Harmless (s : FaultState P) : FaultAct P → Prop
  | .read p (.copy r) => (s.pc p).Failed → r ≠ 0
  | .read p .clear => (s.pc p).Failed → ¬ s.dev.Pressed
  | _ => True

instance (s : FaultState P) : (a : FaultAct P) → Decidable (Harmless s a)
  | .read _ (.copy _) | .read _ .clear => inferInstanceAs (Decidable (_ → ¬ _))
  | .read _ (.call _) | .read _ .pass | .read _ .signal | .expire | .stmt _ =>
    inferInstanceAs (Decidable True)

/-- The reads that have failed have stored nothing. -/
def Silent (s : FaultState P) : Prop := ∀ p, (s.pc p).Failed → s.stores p = []

/-- A harmless step leaves the failed reads without a store. -/
theorem Silent.step (h : Silent s) (hok : StoresOk s) (ha : Harmless s a)
    (hstep : faultStep d s a = some t) : Silent t := by
  intro q hfailed
  have hq := h q
  have hokq := hok q
  cases faultSteps_of_step hstep with
  | expire | stmt => exact hq hfailed
  | @read p _ _ hr =>
    by_cases hqp : q = p
    · subst hqp
      cases hr with
      | call hpc | clear hpc => simp [FaultPc.Failed] at hfailed
      | pass hpc | signal hpc => simpa [hpc] using hokq
      | @copy args interrupted r hpc hr =>
        have hr : r ≠ 0 := by
          rcases (by simpa [FaultPc.Failed] using hfailed) with hint | hr
          · exact ha (by simp [hpc, FaultPc.Failed, hint])
          · exact hr
        simpa using copyValue_eq_nil_iff.2 hr
    · cases hr with
      | call | pass | signal | copy | clear => simpa [hqp] using hq (by simpa [hqp] using hfailed)

/-- What a harmless step does to the device. -/
theorem Harmless.consumes (ha : Harmless s a) (hstep : faultStep d s a = some t) (ht : Silent t) :
    ConsumesByDelivery s a t := by
  refine ⟨fun hev hnot => ?_, fun p r ha' hfailed => ?_, ht⟩
  · cases faultSteps_of_step hstep with
    | expire => exact absurd hev hnot
    | stmt => exact absurd (exec_pressed hev) hnot
    | @read p _ _ hr => cases hr with
      | call | pass | signal | copy => exact absurd hev hnot
      | @clear args interrupted r hpc =>
        -- the read has not failed, as the flag was up
        have hok : ¬ (s.pc p).Failed := fun hfailed => ha hfailed hev
        obtain ⟨hint, rfl⟩ : interrupted = false ∧ r = 0 := by
          simpa [hpc, FaultPc.Failed] using hok
        exact ⟨p, args, rfl, hint ▸ hpc⟩
  · subst ha'
    cases faultSteps_of_step hstep with
    | read hr => cases hr with
      | call | pass | signal | copy => exact ⟨rfl, rfl⟩
      | clear hpc =>
        have hdown : ¬ s.dev.Pressed := ha (by simpa [FaultPc.Failed] using hfailed)
        exact ⟨(not_not.1 hdown).symm, rfl⟩

/-- A step that consumes by delivery was harmless. -/
theorem ConsumesByDelivery.harmless (h : ConsumesByDelivery s a t)
    (hstep : faultStep d s a = some t) : Harmless s a := by
  cases faultSteps_of_step hstep with
  | expire | stmt => trivial
  | @read p _ _ hr => cases hr with
    | call | pass | signal => trivial
    | @copy args interrupted r hpc =>
      intro hfailed
      have hint : interrupted := by simpa [hpc, FaultPc.Failed] using hfailed
      have hnil := h.silent p (by simp [FaultPc.Failed, hint])
      exact copyValue_eq_nil_iff.1 (by simpa using hnil)
    | clear hpc =>
      intro hfailed
      have hkept := (h.kept p .clear rfl (.inl hfailed)).1
      exact not_not.2 hkept.symm

/-- **When an event is consumed by delivering it.** Every step of a run consumes an event only by
delivering it if and only if no interrupted read copies successfully, and the flag is down whenever
a read that was interrupted or whose copy has failed clears it. -/
theorem consumed_by_delivery_iff {P : Type} [DecidableEq P] (d : Driver) (dev : Device)
    (run : List (FaultAct P)) (s : FaultState P)
    (h : exec (faultStep d) (FaultState.init dev) run = some s) :
    Meets (faultStep d) (FaultState.init dev)
        (fun _ s a => ∀ t, faultStep d s a = some t → ConsumesByDelivery s a t) run ↔
      Meets (faultStep d) (FaultState.init dev) (fun _ => Harmless) run := by
  refine meets_iff_meets (I := fun _ => Silent) ?_ ?_ ?_ ?_ h
  · intro p hfailed
    exact absurd hfailed id
  · intro _ s a t hs hsilent ha hstep
    exact hsilent.step (reachable_storesOk hs) ha hstep
  · intro _ s a _ hs hsilent ha _ t hstep
    exact ha.consumes hstep (hsilent.step (reachable_storesOk hs) ha hstep)
  · intro _ s a t _ hstep hconsumes
    exact (hconsumes t hstep).harmless hstep

/-- The statements of a whole callback. -/
def callbackActs {P : Type} (d : Driver) : List (FaultAct P) :=
  .expire :: (hrtimerHanderInterrupt d).map .stmt

theorem consumed_by_delivery_signal :
    Meets (faultStep .interrupt3Epoll) (FaultState.init (Device.init .interrupt3Epoll))
      (fun _ s a => ∀ t, faultStep .interrupt3Epoll s a = some t → ConsumesByDelivery s a t)
      ([.read () (.call ⟨0, 1⟩), .read () .signal, .read () (.copy 1), .read () .clear] ++
        callbackActs .interrupt3Epoll ++
        [.read () (.call ⟨0, 1⟩), .read () .pass, .read () (.copy 0), .read () .clear]) := by
  refine (consumed_by_delivery_iff .interrupt3Epoll _ _ _ (Option.some_get ?_).symm).2 ?_
  · decide
  · decide +kernel

/-- The copy of the only read fails, and the event is consumed. -/
def faultRun : List (FaultAct Unit) :=
  callbackActs .interrupt3Epoll ++
    [.read () (.call ⟨0, 1⟩), .read () .pass, .read () (.copy 1), .read () .clear]

theorem event_consumed_undelivered :
    ¬ Meets (faultStep .interrupt3Epoll) (FaultState.init (Device.init .interrupt3Epoll))
      (fun _ s a => ∀ t, faultStep .interrupt3Epoll s a = some t → ConsumesByDelivery s a t)
      faultRun := by
  intro h
  obtain ⟨p, args, -, hpc⟩ := (h (callbackActs .interrupt3Epoll ++
    [.read () (.call ⟨0, 1⟩), .read () .pass, .read () (.copy 1)]) (.read () .clear) [] _ rfl rfl _
      rfl).consumed (by decide) (by decide)
  cases hpc

/-! ## Runs without signals and faults -/

/-- Where a reader of `Flag` stands. -/
def ReadPc.faultless (args : ReadArgs) : ReadPc → FaultPc
  | .idle => .idle
  | .passed => .waited args false
  | .copied => .copied args false 0

/-- The step `pass` of `Flag` is the call and the end of its wait. -/
def Act.faultless {P : Type} (args : ReadArgs) : Act P → List (FaultAct P)
  | .expire => [.expire]
  | .stmt c => [.stmt c]
  | .read p .pass => [.read p (.call args), .read p .pass]
  | .read p .copy => [.read p (.copy 0)]
  | .read p .clear => [.read p .clear]

/-- The two machines stand at the same place, and the byte that a read of `Flag` has copied is the
byte that is stored in the reader's memory. -/
structure Faultless {P : Type} (args : ReadArgs) (s : State P) (t : FaultState P) : Prop where
  dev : t.dev = s.dev
  cb : t.cb = s.cb
  pc : ∀ p, t.pc p = (s.pc p).faultless args
  stores : ∀ p, s.pc p = .copied →
    ∃ v, s.buf p = some v ∧ t.stores p = storesAt args.buf [v.toUInt8]

/-- A step of `Flag` is a step, or two, of a run without signals and faults. -/
theorem Faultless.step {s s' : State P} {t : FaultState P} {a : Act P} {args : ReadArgs}
    (h : Faultless args s t) (hstep : Press.step d s a = some s') :
    ∃ t', exec (faultStep d) t (a.faultless args) = some t' ∧ Faultless args s' t' := by
  cases steps_of_step hstep with
  | expire hcb =>
    refine ⟨{ t with cb := hrtimerHanderInterrupt d }, ?_, h.dev, rfl, h.pc, h.stores⟩
    simp [Act.faultless, faultStep, h.cb, hcb]
  | @stmt c rest hcb =>
    refine ⟨{ t with dev := c.exec t.dev, cb := rest }, ?_, ?_, rfl, h.pc, h.stores⟩
    · simp [Act.faultless, faultStep, h.cb, hcb]
    · rw [h.dev]
  | @read p _ _ hr =>
    have hpc := h.pc p
    cases hr with
    | pass hidle hev =>
      rw [hidle] at hpc
      refine ⟨{ t with
        pc := Function.update (Function.update t.pc p (.waiting args)) p (.waited args false)
        stores := Function.update t.stores p [] }, ?_, h.dev, h.cb, fun q => ?_, fun q hq => ?_⟩
      · simp [Act.faultless, faultStep, faultReadStep, hpc, ReadPc.faultless, h.dev, hev]
      · by_cases hqp : q = p
        · simp [hqp, ReadPc.faultless]
        · simpa [hqp] using h.pc q
      · by_cases hqp : q = p
        · simp [hqp] at hq
        · simpa [hqp] using h.stores q (by simpa [hqp] using hq)
    | copy hpassed =>
      rw [hpassed] at hpc
      refine ⟨{ t with
        pc := Function.update t.pc p (.copied args false 0)
        stores := Function.update t.stores p (t.dev.copyValue args.buf 0) },
        ?_, h.dev, h.cb, fun q => ?_, fun q hq => ?_⟩
      · simp [Act.faultless, faultStep, faultReadStep, hpc, ReadPc.faultless]
      · by_cases hqp : q = p
        · simp [hqp, ReadPc.faultless]
        · simpa [hqp] using h.pc q
      · by_cases hqp : q = p
        · exact ⟨s.dev.value, by simp [hqp], by simp [hqp, h.dev, Device.copyValue, copyToUser]⟩
        · simpa [hqp] using h.stores q (by simpa [hqp] using hq)
    | clear hcopied =>
      rw [hcopied] at hpc
      refine ⟨{ t with dev := t.dev.clearPress, pc := Function.update t.pc p .idle },
        ?_, ?_, h.cb, fun q => ?_, fun q hq => ?_⟩
      · simp [Act.faultless, faultStep, faultReadStep, hpc, ReadPc.faultless]
      · rw [h.dev]
      · by_cases hqp : q = p
        · simp [hqp, ReadPc.faultless]
        · simpa [hqp] using h.pc q
      · by_cases hqp : q = p
        · simp [hqp] at hq
        · simpa [hqp] using h.stores q (by simpa [hqp] using hq)

/-- **Refinement.** A run of `Flag` is a run without signals and faults. -/
theorem exec_faultless {s : State P} {run : List (Act P)} (args : ReadArgs)
    (h : exec (step d) (State.init d) run = some s) :
    ∃ t, exec (faultStep d) (FaultState.init (Device.init d)) (run.flatMap (Act.faultless args)) =
      some t ∧ Faultless args s t := by
  refine exec_simulation (R := Faultless args) (fun hR hstep => hR.step hstep) ?_ h
  exact ⟨rfl, rfl, fun _ => rfl, fun _ hcopied => by cases hcopied⟩

end Starrysky.Press
