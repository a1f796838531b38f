import Starrysky.Press.Faults
import Starrysky.Press.PollClient

/-!
# What the poll client prints

The client reads one byte into its variable `val` of four bytes, which nothing has set before, and
prints all four. The machine adds `val` and the printed integers to the machine of `PollClient`; the
`printf` is one step with the end of the read that it follows. The byte that is read is 0 or 1, and
the other three bytes stay what they were at first: `printed_iff` says that the client prints the
byte exactly if they are 0.
-/

namespace Starrysky.Press

open Transition UserCopy

/-- The client, its memory, and the integers that it has printed, each with the byte that
`dmisc_read` copied in the read before. -/
structure ValClient where
  client : PollClient
  mem : Memory
  printed : List (Int32 × Option Int8)

def ValClient.init (mem : Memory) : ValClient := { client := .init, mem, printed := [] }

/-- The memory of the client, with `val` at the address `val`: only the copy of a read stores
something. -/
def ValClient.memAfter (val : ℕ) (s : ValClient) : ClientAct → Memory
  | .proc .copy => apply s.mem (s.client.sys.dev.copyValue val 0)
  | _ => s.mem

/-- `printf("get button : 0x%x\\r\\n", val)` follows the end of a read. -/
def ValClient.printedAfter (val : ℕ) (s : ValClient) : ClientAct → List (Int32 × Option Int8)
  | .proc .clear => s.printed ++ [(loadInt s.mem val, s.client.sys.buf ())]
  | _ => s.printed

/-- A step of the client or of the callback. -/
def valClientStep (val : ℕ) (s : ValClient) (a : ClientAct) : Option ValClient :=
  (pollClientStep s.client a).map fun client =>
    { client, mem := s.memAfter val a, printed := s.printedAfter val a }

/-- A byte that the callback stores in `value`. -/
def IsBit (v : Int8) : Prop := v = 0 ∨ v = 1

/-- What holds in every run of the client. -/
structure ValOk (val : ℕ) (mem : Memory) (run : List ClientAct) (s : ValClient) : Prop where
  value : IsBit s.client.sys.dev.value
  others : ∀ x, x ≠ val → s.mem x = mem x
  copied : (s.client.sys.procs ()).pc = .clearing →
    ∃ v, s.client.sys.buf () = some v ∧ IsBit v ∧ s.mem val = v.toUInt8
  printed : ∀ x ∈ s.printed, ∃ v, x.2 = some v ∧ IsBit v ∧
    x.1 = loadInt (Function.update mem val v.toUInt8) val
  cleared : s.printed = [] ↔ .proc .clear ∉ run

variable {val : ℕ} {mem : Memory} {s t : ValClient} {a : ClientAct} {run : List ClientAct}
  {dev : Device} {c : Stmt} {v : Int8}

theorem exec_value (h : IsBit dev.value) : IsBit (c.exec dev).value := by
  cases c with
  | toggleValue => by_cases hv : dev.value = 0 <;> simp [Stmt.exec, hv, IsBit]
  | mdelay | setKt | forwardNow | setPress | wakeUp | restart => exact h

/-- The run of the client is one of the poll client. -/
theorem exec_client (h : exec (valClientStep val) (.init mem) run = some s) :
    exec pollClientStep .init run = some s.client := by
  refine exec_induction (P := fun run s => exec pollClientStep .init run = some s.client) rfl ?_ h
  intro run s a t _ ih hstep
  obtain ⟨client, hclient, ⟨⟩⟩ := Option.map_eq_some_iff.1 hstep
  exact exec_concat.2 ⟨s.client, ih, hclient⟩

/-- A step that neither copies nor ends a read leaves `val` and the output as they are. -/
theorem ValOk.frame {client : PollClient} (ok : ValOk val mem run s) (hcopy : a ≠ .proc .copy)
    (hclear : a ≠ .proc .clear) (hvalue : IsBit client.sys.dev.value)
    (hpc : (client.sys.procs ()).pc = .clearing → (s.client.sys.procs ()).pc = .clearing)
    (hbuf : client.sys.buf () = s.client.sys.buf ()) : ValOk val mem (run ++ [a])
      { client, mem := s.memAfter val a, printed := s.printedAfter val a } := by
  have hmem : s.memAfter val a = s.mem := by
    unfold ValClient.memAfter
    split
    · exact absurd rfl hcopy
    · rfl
  have hprinted : s.printedAfter val a = s.printed := by
    unfold ValClient.printedAfter
    split
    · exact absurd rfl hclear
    · rfl
  rw [hmem, hprinted]
  refine ⟨hvalue, ok.others, fun h => ?_, ok.printed, ?_⟩
  · rw [hbuf]
    exact ok.copied (hpc h)
  · simpa [hclear.symm] using ok.cleared

/-- What a read prints is the byte at `val` between the three others. -/
theorem ValOk.loadInt_eq (ok : ValOk val mem run s) (hv : s.mem val = v.toUInt8) :
    loadInt s.mem val = loadInt (Function.update mem val v.toUInt8) val := by
  have hmem : s.mem = Function.update mem val v.toUInt8 := by
    funext x
    by_cases hx : x = val
    · rw [hx, hv, Function.update_self]
    · rw [ok.others x hx, Function.update_of_ne hx]
  rw [hmem]

/-- A step writes no byte of `val` but the first, and prints what the four bytes then come to. -/
theorem ValOk.step (ok : ValOk val mem run s) (h : valClientStep val s a = some t) :
    ValOk val mem (run ++ [a]) t := by
  obtain ⟨client, hclient, rfl⟩ := Option.map_eq_some_iff.1 h
  cases a with
  | expire =>
    obtain ⟨sys, hsys, rfl⟩ := Option.map_eq_some_iff.1 hclient
    cases waitSteps_of_waitStep hsys with
    | expire => exact ok.frame (by simp) (by simp) ok.value id rfl
  | stmt c =>
    obtain ⟨sys, hsys, rfl⟩ := Option.map_eq_some_iff.1 hclient
    cases waitSteps_of_waitStep hsys with
    | wakeUp => exact ok.frame (by simp) (by simp) ok.value id rfl
    | stmt => exact ok.frame (by simp) (by simp) (exec_value ok.value) id rfl
  | branch =>
    obtain ⟨-, hclient⟩ := Option.ite_none_right_eq_some.1 hclient
    obtain rfl := Option.some.inj hclient
    exact ok.frame (by simp) (by simp) ok.value id rfl
  | proc r =>
    obtain ⟨-, hclient⟩ := Option.ite_none_right_eq_some.1 hclient
    obtain ⟨sys, hsys, rfl⟩ := Option.map_eq_some_iff.1 hclient
    cases procSteps_of_procStep hsys with
    | call | passAtOnce | queue | unready | again | sleep | resume | timeout | signal =>
      exact ok.frame (by simp) (by simp) (by simpa using ok.value) (by simp) (by simp)
    | @ready c =>
      have hpc : c.after ≠ .clearing := by cases c <;> simp [Call.after]
      exact ok.frame (by simp) (by simp) (by simpa using ok.value) (by simp [hpc]) (by simp)
    | copy hpc =>
      refine ⟨by simpa using ok.value, fun x hx => ?_, fun _ => ?_, ok.printed, ?_⟩
      · exact (Function.update_of_ne hx ..).trans (ok.others x hx)
      · exact ⟨s.client.sys.dev.value, by simp, ok.value, Function.update_self ..⟩
      · simpa [ValClient.printedAfter] using ok.cleared
    | clear hpc =>
      obtain ⟨v, hbuf, hbit, hv⟩ := ok.copied hpc
      refine ⟨by simpa using ok.value, ok.others, by simp, fun x hx => ?_, ?_⟩
      · rcases List.mem_append.1 hx with hx | hx
        · exact ok.printed x hx
        · obtain rfl := List.mem_singleton.1 hx
          exact ⟨v, hbuf, hbit, ok.loadInt_eq hv⟩
      · simp [ValClient.printedAfter]

/-- In every run the other three bytes of `val` are what they were at first, and what was printed is
what the four came to. -/
theorem reachable_valOk (h : exec (valClientStep val) (.init mem) run = some s) :
    ValOk val mem run s := by
  refine exec_induction (P := fun run s => ValOk val mem run s) ?_ (fun _ ok hstep => ok.step hstep)
    h
  refine ⟨.inl rfl, fun _ _ => rfl, ?_, by simp [ValClient.init], by simp [ValClient.init]⟩
  simp [ValClient.init, PollClient.init, WaitState.init]

/-- The four bytes of `val` stand for the lowest one exactly if the others are 0. -/
theorem toInt_loadInt_update (hv : IsBit v) :
    (loadInt (Function.update mem val v.toUInt8) val).toInt = v.toInt ↔
      mem (val + 1) = 0 ∧ mem (val + 2) = 0 ∧ mem (val + 3) = 0 := by
  have hload : load (Function.update mem val v.toUInt8) val 4 =
      [v.toUInt8, mem (val + 1), mem (val + 2), mem (val + 3)] := by
    simp [load, List.range_succ]
  have h₁ := (mem (val + 1)).toNat_lt
  have h₂ := (mem (val + 2)).toNat_lt
  have h₃ := (mem (val + 3)).toNat_lt
  rw [toInt_loadInt, hload, ← UInt8.toNat_inj, ← UInt8.toNat_inj, ← UInt8.toNat_inj]
  simp only [ofBytes, List.foldr_cons, List.foldr_nil, UInt8.toNat_zero]
  rcases hv with rfl | rfl
  · have hbyte : (0 : Int8).toUInt8.toNat = 0 := rfl
    rw [hbyte, Int.bmod_def]
    simp
    split <;> omega
  · have hbyte : (1 : Int8).toUInt8.toNat = 1 := rfl
    rw [hbyte, Int.bmod_def]
    simp
    split <;> omega

/-- **When the client prints the byte.** In every run of the client beside the callback, for every
first content of its variable `val`: each integer that it prints is the byte, 0 or 1, that
`dmisc_read` copied in the read before, if and only if no read has ended, or the three upper bytes
of `val` were 0 at first. -/
theorem printed_iff (val : ℕ) (mem : Memory) (run : List ClientAct) (s : ValClient)
    (h : exec (valClientStep val) (.init mem) run = some s) :
    (∀ x ∈ s.printed, ∃ v, x.2 = some v ∧ IsBit v ∧ x.1.toInt = v.toInt) ↔
      .proc .clear ∉ run ∨ mem (val + 1) = 0 ∧ mem (val + 2) = 0 ∧ mem (val + 3) = 0 := by
  have ok := reachable_valOk h
  constructor
  · intro hprinted
    by_cases hnil : s.printed = []
    · exact .inl (ok.cleared.1 hnil)
    · obtain ⟨x, hx⟩ := List.exists_mem_of_ne_nil _ hnil
      obtain ⟨v, hv, hbit, hval⟩ := ok.printed x hx
      obtain ⟨v', hv', -, hexact⟩ := hprinted x hx
      obtain rfl : v = v' := Option.some.inj (hv.symm.trans hv')
      rw [hval] at hexact
      exact .inr ((toInt_loadInt_update hbit).1 hexact)
  · rintro (hclear | hzero) x hx
    · rw [ok.cleared.2 hclear] at hx
      cases hx
    · obtain ⟨v, hv, hbit, hval⟩ := ok.printed x hx
      exact ⟨v, hv, hbit, hval ▸ (toInt_loadInt_update hbit).2 hzero⟩

/-- The client waits in `poll`, a callback wakes it, and it reads and prints. -/
def firstPrint : List ClientAct :=
  [.proc (.call .poll), .proc .queue, .proc .test, .proc .sleep, .expire, .stmt (.mdelay 1000),
    .stmt (.setKt 0 1000000), .stmt .forwardNow, .stmt .toggleValue, .stmt .setPress, .stmt .wakeUp,
    .proc .resume, .proc .test, .branch, .proc (.call .read), .proc .passAtOnce, .proc .copy,
    .proc .clear]

/-- On a stack that is 0 the client prints 1, which is what the read copied. -/
theorem printed_on_zero_stack : ∃ s, exec (valClientStep 0) (.init fun _ => 0) firstPrint = some s ∧
    s.printed = [(1, some 1)] ∧
      ∀ x ∈ s.printed, ∃ v, x.2 = some v ∧ IsBit v ∧ x.1.toInt = v.toInt := by
  obtain ⟨s, hs, hprinted⟩ : ∃ s, exec (valClientStep 0) (.init fun _ => 0) firstPrint = some s ∧
      s.printed = [(1, some 1)] := ⟨_, rfl, rfl⟩
  exact ⟨s, hs, hprinted, (printed_iff 0 (fun _ => 0) firstPrint s hs).2 (.inr ⟨rfl, rfl, rfl⟩)⟩

/-- On another stack it prints 0xaaaaaa01 for the same read. -/
theorem not_printed_exact :
    ¬ ∀ (val : ℕ) (mem : Memory) (run : List ClientAct) (s : ValClient),
      exec (valClientStep val) (.init mem) run = some s →
        ∀ x ∈ s.printed, ∃ v, x.2 = some v ∧ IsBit v ∧ x.1.toInt = v.toInt := by
  intro hall
  obtain ⟨s, hs, hprinted⟩ : ∃ s, exec (valClientStep 0) (.init fun _ => 0xaa) firstPrint = some s ∧
      s.printed = [((0xaaaaaa01 : UInt32).toInt32, some 1)] := ⟨_, rfl, rfl⟩
  obtain ⟨v, hv, -, hexact⟩ := hall 0 _ firstPrint s hs _ (hprinted ▸ List.mem_singleton_self _)
  obtain rfl := Option.some.inj hv
  exact absurd hexact (by decide)

end Starrysky.Press
