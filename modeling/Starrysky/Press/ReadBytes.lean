import Starrysky.Misc.Transfer
import Starrysky.Press.Faults

/-!
# The buffer of a read

No `dmisc_read` looks at its `count`: the one of `misc_1_demo` copies the four bytes of `gval`, the
ones of the timer drivers copy one byte. `reads_withinBuffer_iff` says for which counts they stay in
the user's buffer, over every state of the device and of the calls.
-/

namespace Starrysky.Press

open Transition UserCopy

/-- The arguments of the read in progress. -/
def FaultPc.args : FaultPc → Option ReadArgs
  | .idle => none
  | .waiting args | .waited args _ | .copied args _ _ => some args

/-- The number of bytes that the read in progress has transferred. -/
def FaultPc.transferred : FaultPc → ℕ
  | .idle | .waiting _ | .waited .. => 0
  | .copied _ _ r => 1 - r

variable {P : Type} {s : FaultState P} {p : P} {args : ReadArgs}

/-- A read in progress has stored the bytes that it has transferred, from the start of its buffer
on. -/
theorem StoresOk.stores_eq (h : StoresOk s) (hargs : (s.pc p).args = some args) :
    ∃ bs, s.stores p = storesAt args.buf bs ∧ bs.length = (s.pc p).transferred := by
  have hp := h p
  cases hpc : s.pc p with
  | idle => simp [hpc, FaultPc.args] at hargs
  | waiting args' | waited args' =>
    refine ⟨[], ?_, rfl⟩
    simpa [hpc, storesAt] using hp
  | copied args' interrupted r =>
    obtain rfl : args' = args := by simpa [hpc, FaultPc.args] using hargs
    obtain ⟨-, dev, hdev⟩ : r ≤ 1 ∧ ∃ dev : Device, s.stores p = dev.copyValue args'.buf r := by
      simpa [hpc] using hp
    exact ⟨_, hdev, by simp [FaultPc.transferred]⟩

/-- **Which reads stay in the buffer.** The read of `misc_1_demo` writes at most `count` bytes, and
none behind the buffer, exactly if the bytes that it transfers, 4 less those that fault, are at most
`count`; and so does a read of a timer driver, in every state of every run, with the bytes that it
has transferred there: none as long as it waits, and 1 less the one that may fault after its copy.
-/
theorem reads_withinBuffer_iff {P : Type} [DecidableEq P] (mem : Memory) (gval buf count r : ℕ)
    (d : Driver) (dev : Device) (run : List (FaultAct P)) (s : FaultState P)
    (h : exec (faultStep d) (FaultState.init dev) run = some s) :
    (WithinBuffer buf count (Misc.dmiscRead mem gval buf count r).2 ↔ 4 - r ≤ count) ∧
      ∀ p args, (s.pc p).args = some args →
        (WithinBuffer args.buf args.count (s.stores p) ↔ (s.pc p).transferred ≤ args.count) := by
  constructor
  · rw [Misc.dmiscRead, copyToUser, withinBuffer_storesAt_iff, List.length_take, load_length]
    omega
  · intro p args hargs
    obtain ⟨bs, hstores, hlength⟩ := (reachable_storesOk h).stores_eq hargs
    rw [hstores, withinBuffer_storesAt_iff, hlength]

/-- A read up to its copy, after a callback. -/
def readActs (d : Driver) (args : ReadArgs) : List (FaultAct Unit) :=
  callbackActs d ++ [.read () (.call args), .read () .pass, .read () (.copy 0)]

theorem reads_withinBuffer_sizes :
    WithinBuffer 64 4 (Misc.dmiscRead (fun _ => 7) 0 64 4 0).2 ∧
      ∃ s : FaultState Unit,
        exec (faultStep .interrupt2Poll) (FaultState.init (Device.init .interrupt2Poll))
            (readActs .interrupt2Poll ⟨64, 1⟩) = some s ∧
          WithinBuffer 64 1 (s.stores ()) := by
  obtain ⟨s, hs⟩ : ∃ s : FaultState Unit, exec (faultStep .interrupt2Poll)
      (FaultState.init (Device.init .interrupt2Poll)) (readActs .interrupt2Poll ⟨64, 1⟩) = some s :=
    ⟨_, rfl⟩
  obtain ⟨hmisc, hpress⟩ := reads_withinBuffer_iff (fun _ => 7) 0 64 4 0 _ _ _ s hs
  refine ⟨hmisc.2 le_rfl, s, hs, ?_⟩
  cases hs
  exact (hpress () ⟨64, 1⟩ rfl).2 le_rfl

/-- A read of one byte in `misc_1_demo`, and a read of none in the others, write behind the buffer.
-/
theorem not_withinBuffer_short :
    ¬ WithinBuffer 64 1 (Misc.dmiscRead (fun _ => 7) 0 64 1 0).2 ∧
      ∃ s : FaultState Unit,
        exec (faultStep .interrupt2Poll) (FaultState.init (Device.init .interrupt2Poll))
            (readActs .interrupt2Poll ⟨64, 0⟩) = some s ∧
          ¬ WithinBuffer 64 0 (s.stores ()) := by
  refine ⟨fun h => absurd h.length_le (by decide), _, rfl, fun h => absurd h.length_le ?_⟩
  decide

end Starrysky.Press
