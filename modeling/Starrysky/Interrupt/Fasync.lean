import Starrysky.Interrupt.Driver
import Mathlib.Data.Finset.Basic
import Mathlib.Data.List.Nodup

/-!
# The files that `interrupt-1-fasync` signals

The driver keeps in `async_queue` the files that asked for `SIGIO`. `demo_fasync` switches a file on
or off and can fail, `dmisc_release` switches it off with an `fd` of -1, and the callback signals
every file of the queue. The machine adds the queue to the driver of `Driver`. In every state the
queue holds exactly the open files that were last switched on, each once (`registered_iff`).
-/

namespace Starrysky.Interrupt

open Transition

variable {F : Type}

/-- The driver with its `async_queue`. -/
structure FasyncState (F : Type) extends State F where
  asyncQueue : List F

inductive FasyncAct (F : Type) where
  | base (a : Act F)
  /-- `demo_fasync(fd, f, on)` returns `ret`; `err` is what `fasync_helper(on=1)` fails with, if it
  fails -/
  | fasync (f : F) (fd on : Int32) (err : Option Int32) (ret : Int32)
  deriving DecidableEq

/-- `hello_init` has returned 0. -/
def FasyncState.init : FasyncState F := { State.init with asyncQueue := [] }

variable [DecidableEq F] {f g : F} {fd on ret : Int32} {err : Option Int32} {queue : List F}

/-- The kernel's `fasync_helper`: what it returns, and the queue. -/
def fasyncHelper (_fd : Int32) (f : F) (on : Int32) (err : Option Int32) (queue : List F) :
    Int32 × List F :=
  if on = 0 then
    if f ∈ queue then (1, queue.erase f) else (0, queue)
  else
    match err with
    | some e => (e, queue)
    | none => if f ∈ queue then (0, queue) else (1, f :: queue)

def EIO : Int32 := 5

/-- `demo_fasync`: what it returns, and the queue. -/
def demoFasync (fd : Int32) (f : F) (on : Int32) (err : Option Int32) (queue : List F) :
    Int32 × List F :=
  let (r, queue) := fasyncHelper fd f on err queue
  if r < 0 then (- EIO, queue) else (0, queue)

/-- A step of the driver. A file gets no `fasync` call after its release, and `fasync_helper` fails
with a negative result. -/
def fasyncStep (s : FasyncState F) : FasyncAct F → Option (FasyncState F)
  | .base a => (step .interrupt1Fasync s.toState a).map fun t =>
    { t with
      asyncQueue := match a with
        | .release f => (demoFasync (-1) f 0 none s.asyncQueue).2
        | .opens _ | .expire | .stmt | .exit | .exitStmt => s.asyncQueue }
  | .fasync f fd on err ret =>
    if f ∈ s.opened ∧ err.all (· < 0) ∧ (demoFasync fd f on err s.asyncQueue).1 = ret then
      some { s with asyncQueue := (demoFasync fd f on err s.asyncQueue).2 }
    else none

/-- The files that a step sends `SIGIO`: `kill_fasync` walks the queue. -/
def signalled (s : FasyncState F) : FasyncAct F → List F
  | .base .stmt => if s.callback.head? = some .killFasync then s.asyncQueue else []
  | .base (.opens _) | .base (.release _) | .base .expire | .base .exit | .base .exitStmt
  | .fasync .. => []

/-- The `on` of the last `demo_fasync` call on the file that has returned 0, the call in
`dmisc_release` included; 0 when there is none. -/
def lastOn (f : F) (run : List (FasyncAct F)) : Int32 :=
  run.foldl (fun last a => match a with
    | .fasync g _ on _ ret => if g = f ∧ ret = 0 then on else last
    | .base (.release g) => if g = f then 0 else last
    | .base (.opens _) | .base .expire | .base .stmt | .base .exit | .base .exitStmt => last) 0

/-! ## A call of `demo_fasync` -/

/-- To switch a file off never fails. -/
theorem demoFasync_off (fd : Int32) (f : F) (err : Option Int32) (queue : List F) :
    demoFasync fd f 0 err queue = (0, queue.erase f) := by
  by_cases hf : f ∈ queue
  · simp [demoFasync, fasyncHelper, hf]
  · simp [demoFasync, fasyncHelper, hf, List.erase_of_not_mem hf]

/-- A call switches the file off, switches it on, or fails and leaves the queue alone. -/
theorem demoFasync_cases (fd : Int32) (f : F) (on : Int32) (queue : List F)
    (herr : err.all (· < 0)) :
    on = 0 ∧ demoFasync fd f on err queue = (0, queue.erase f) ∨
    on ≠ 0 ∧ demoFasync fd f on err queue = (0, queue.insert f) ∨
    on ≠ 0 ∧ demoFasync fd f on err queue = (- EIO, queue) := by
  by_cases hon : on = 0
  · exact .inl ⟨hon, hon ▸ demoFasync_off fd f err queue⟩
  cases err with
  | none =>
    refine .inr (.inl ⟨hon, ?_⟩)
    by_cases hf : f ∈ queue
    · simp [demoFasync, fasyncHelper, hon, hf]
    · simp [demoFasync, fasyncHelper, hon, hf]
  | some e =>
    have he : e < 0 := by simpa using herr
    exact .inr (.inr ⟨hon, by simp [demoFasync, fasyncHelper, hon, he]⟩)

theorem demoFasync_failed (herr : err.all (· < 0)) (hret : (demoFasync fd f on err queue).1 ≠ 0) :
    (demoFasync fd f on err queue).2 = queue := by
  rcases demoFasync_cases fd f on queue herr with ⟨-, heq⟩ | ⟨-, heq⟩ | ⟨-, heq⟩
  · exact absurd (by rw [heq]) hret
  · exact absurd (by rw [heq]) hret
  · rw [heq]

theorem demoFasync_nodup (herr : err.all (· < 0)) (h : queue.Nodup) :
    (demoFasync fd f on err queue).2.Nodup := by
  rcases demoFasync_cases fd f on queue herr with ⟨-, heq⟩ | ⟨-, heq⟩ | ⟨-, heq⟩
  · rw [heq]
    exact h.erase f
  · rw [heq]
    exact h.insert
  · rw [heq]
    exact h

/-- A successful call leaves the file in the queue exactly if it switched it on, and leaves the
other files alone. -/
theorem mem_demoFasync (herr : err.all (· < 0)) (h : queue.Nodup) :
    g ∈ (demoFasync fd f on err queue).2 ↔
      if f = g ∧ (demoFasync fd f on err queue).1 = 0 then on ≠ 0 else g ∈ queue := by
  rcases demoFasync_cases fd f on queue herr with ⟨hon, heq⟩ | ⟨hon, heq⟩ | ⟨hon, heq⟩
  · rw [heq]
    by_cases hfg : f = g
    · simp [hfg, hon, h.mem_erase_iff]
    · simp [hfg, h.mem_erase_iff, Ne.symm hfg]
  · rw [heq]
    by_cases hfg : f = g
    · simp [hfg, hon]
    · simp [hfg, Ne.symm hfg]
  · simp [heq, EIO]

/-! ## The queue in every run -/

section LastOn

variable {run : List (FasyncAct F)}

@[simp] theorem lastOn_nil : lastOn f [] = 0 := rfl

theorem lastOn_fasync :
    lastOn g (run ++ [.fasync f fd on err ret]) = if f = g ∧ ret = 0 then on else lastOn g run := by
  simp [lastOn]

theorem lastOn_release :
    lastOn g (run ++ [.base (.release f)]) = if f = g then 0 else lastOn g run := by
  simp [lastOn]

theorem lastOn_base {a : Act F} (h : ∀ f, a ≠ .release f) :
    lastOn g (run ++ [.base a]) = lastOn g run := by
  cases a with
  | release f => exact absurd rfl (h f)
  | opens | expire | stmt | exit | exitStmt => simp [lastOn]

end LastOn

/-- The queue holds every file that was last switched on, once, and only open files were. -/
structure QueueOk (run : List (FasyncAct F)) (s : FasyncState F) : Prop where
  nodup : s.asyncQueue.Nodup
  mem : ∀ f, f ∈ s.asyncQueue ↔ lastOn f run ≠ 0
  opened : ∀ f, lastOn f run ≠ 0 → f ∈ s.opened

variable {s t : FasyncState F} {a : FasyncAct F} {run : List (FasyncAct F)}

/-- A step leaves in the queue exactly the files that were last switched on, each once. -/
theorem QueueOk.step (ok : QueueOk run s) (h : fasyncStep s a = some t) :
    QueueOk (run ++ [a]) t := by
  cases a with
  | fasync f fd on err ret =>
    obtain ⟨⟨hf, herr, rfl⟩, ⟨⟩⟩ := Option.ite_none_right_eq_some.1 h
    refine ⟨demoFasync_nodup herr ok.nodup, fun g => ?_, fun g hg => ?_⟩
    · rw [lastOn_fasync, mem_demoFasync herr ok.nodup, ok.mem g]
      split <;> rfl
    · rw [lastOn_fasync] at hg
      split at hg
      · next heq => exact heq.1 ▸ hf
      · exact ok.opened g hg
  | base a =>
    obtain ⟨t, ht, ⟨⟩⟩ := Option.map_eq_some_iff.1 h
    cases steps_of_step ht with
    | @release f =>
      simp only [demoFasync_off]
      refine ⟨ok.nodup.erase f, fun g => ?_, fun g hg => ?_⟩
      · rw [lastOn_release, ok.nodup.mem_erase_iff, ok.mem g]
        by_cases hfg : f = g
        · simp [hfg]
        · simp [hfg, Ne.symm hfg]
      · rw [lastOn_release] at hg
        have hfg : f ≠ g := fun hfg => hg (if_pos hfg)
        rw [if_neg hfg] at hg
        exact Finset.mem_erase.2 ⟨hfg.symm, ok.opened g hg⟩
    | opens =>
      refine ⟨ok.nodup, fun g => ?_, fun g hg => ?_⟩
      · rw [lastOn_base (by simp)]
        exact ok.mem g
      · rw [lastOn_base (by simp)] at hg
        exact Finset.mem_insert_of_mem (ok.opened g hg)
    | expire | stmt | exit | exitStmt =>
      refine ⟨ok.nodup, fun g => ?_, fun g hg => ?_⟩
      · rw [lastOn_base (by simp)]
        exact ok.mem g
      · rw [lastOn_base (by simp)] at hg
        exact ok.opened g hg

/-- In every run the queue holds exactly the files that were last switched on, each once. -/
theorem reachable_queueOk (h : exec fasyncStep FasyncState.init run = some s) : QueueOk run s := by
  refine exec_induction ?_ (fun _ ok hstep => ok.step hstep) h
  exact ⟨List.nodup_nil, by simp [FasyncState.init], by simp⟩

theorem killFasync_once : (hrtimerHanderInterrupt .interrupt1Fasync).count .killFasync = 1 := by
  decide

/-- **The callback signals exactly the files that were last switched on.** In every state of every
run, `async_queue` holds the open files whose last successful `demo_fasync` call had `on != 0`, each
once; a call that fails leaves it unchanged; and the callback, at its one `kill_fasync`, signals
each of these files once and no other file. -/
theorem registered_iff {F : Type} [DecidableEq F] (run : List (FasyncAct F)) (s : FasyncState F)
    (h : exec fasyncStep FasyncState.init run = some s) :
    s.asyncQueue.Nodup ∧ (∀ f, f ∈ s.asyncQueue ↔ f ∈ s.opened ∧ lastOn f run ≠ 0) ∧
      (∀ f fd on err ret t, fasyncStep s (.fasync f fd on err ret) = some t → ret ≠ 0 →
        t.asyncQueue = s.asyncQueue) ∧
      (hrtimerHanderInterrupt .interrupt1Fasync).count .killFasync = 1 ∧
      ∀ f, (signalled s (.base .stmt)).count f =
        if s.callback.head? = some .killFasync ∧ f ∈ s.opened ∧ lastOn f run ≠ 0 then 1 else 0 := by
  have ok := reachable_queueOk h
  have hmem : ∀ f, f ∈ s.asyncQueue ↔ f ∈ s.opened ∧ lastOn f run ≠ 0 := by
    intro f
    rw [ok.mem f, iff_and_self]
    exact ok.opened f
  refine ⟨ok.nodup, hmem, ?_, killFasync_once, fun f => ?_⟩
  · intro f fd on err ret t hstep hret
    obtain ⟨⟨-, herr, rfl⟩, ⟨⟩⟩ := Option.ite_none_right_eq_some.1 hstep
    exact demoFasync_failed herr hret
  · simp only [← hmem f]
    by_cases hkill : s.callback.head? = some .killFasync
    · simp [signalled, hkill, ok.nodup.count]
    · simp [signalled, hkill]

/-- Of two open files the first is switched on twice, and the second tries in vain. -/
theorem registered_two_files :
    ∃ s : FasyncState (Fin 2), exec fasyncStep FasyncState.init
      [.base (.opens 0), .base (.opens 1), .fasync 0 3 1 none 0, .fasync 1 4 1 (some (-12)) (-5),
        .fasync 0 3 1 none 0, .base .expire, .base .stmt, .base .stmt, .base .stmt] = some s ∧
      (signalled s (.base .stmt)).count 0 = 1 ∧ (signalled s (.base .stmt)).count 1 = 0 := by
  have hsome : (exec fasyncStep (FasyncState.init : FasyncState (Fin 2))
      [.base (.opens 0), .base (.opens 1), .fasync 0 3 1 none 0, .fasync 1 4 1 (some (-12)) (-5),
        .fasync 0 3 1 none 0, .base .expire, .base .stmt, .base .stmt, .base .stmt]).isSome := by
    decide +kernel
  obtain ⟨s, hs⟩ := Option.isSome_iff_exists.1 hsome
  have hstate : ∀ s ∈ exec fasyncStep (FasyncState.init : FasyncState (Fin 2))
      [.base (.opens 0), .base (.opens 1), .fasync 0 3 1 none 0, .fasync 1 4 1 (some (-12)) (-5),
        .fasync 0 3 1 none 0, .base .expire, .base .stmt, .base .stmt, .base .stmt],
      s.callback.head? = some .killFasync ∧ 0 ∈ s.opened := by
    decide +kernel
  obtain ⟨-, -, -, -, hcount⟩ := registered_iff _ s hs
  refine ⟨s, hs, ?_, ?_⟩
  · rw [hcount 0, if_pos ⟨(hstate s hs).1, (hstate s hs).2, by decide⟩]
  · rw [hcount 1, if_neg fun h => h.2.2 (by decide)]

end Starrysky.Interrupt
