import Starrysky.Misc.Transfer
import Mathlib.Data.Fintype.Card
import Mathlib.Data.Int.Notation
import Mathlib.Logic.Function.Basic
import Mathlib.Order.Interval.Finset.Nat

/-!
# The test program of `misc_1_demo`, side by side

Any number of processes run `main` of `test.c`, which writes 12 and prints what it reads. Here the
increment of `gval` is a load and a store, as the machine has it, so that increments get lost beside
the overlaps of `Gval`. In the end `gval` is 12 and 10 for some number of increments, from one to
the number of the processes, and each of these numbers is possible (`final_gval_iff`); a process may
also print the bare 12 of another, and all print 22 when no two writes overlap (`main_prints`).
-/

namespace Starrysky.Misc

open Transition UserCopy

/-- Where `main` stands, by what comes next; the write is a copy into `gval`, and a load and a store
for the increment. -/
inductive MainPc where
  | opens
  | copy
  | load
  | store
  | read
  | printf
  | close
  | exited
  deriving DecidableEq

/-- A process: `fd` is whether `open` has succeeded, whose result `main` does not look at, and `reg`
is what the increment has loaded. -/
structure Proc where
  pc : MainPc
  fd : Bool
  val : Int32
  reg : Int32
  printed : Option Int32

/-- `int val = 12` -/
def Proc.init : Proc := { pc := .opens, fd := false, val := 12, reg := 0, printed := none }

structure Mains (P : Type) where
  gval : Int32
  procs : P → Proc

inductive MainAct where
  /-- `open` returns a file if `ok`, and -1 otherwise -/
  | opens (ok : Bool)
  /-- what comes next -/
  | next
  deriving DecidableEq

/-- A step of a process, with `gval` before and after. On the file -1, `write` and `read` do
nothing. -/
def mainStep (gval : Int32) (x : Proc) : MainAct → Option (Int32 × Proc)
  | .opens ok => if x.pc = .opens then some (gval, { x with pc := .copy, fd := ok }) else none
  | .next =>
    match x.pc with
    | .opens | .exited => none
    | .copy =>
      if x.fd then some (x.val, { x with pc := .load }) else some (gval, { x with pc := .read })
    | .load => some (gval, { x with pc := .store, reg := gval })
    | .store => some (x.reg + 10, { x with pc := .read })
    | .read => some (gval, { x with pc := .printf, val := if x.fd then gval else x.val })
    | .printf => some (gval, { x with pc := .close, printed := some x.val })
    | .close => some (gval, { x with pc := .exited })

variable {P : Type}

/-- The module is loaded, and all processes begin. -/
def Mains.init : Mains P := { gval := 0, procs := fun _ => .init }

def mainsStep [DecidableEq P] (s : Mains P) (x : P × MainAct) : Option (Mains P) :=
  (mainStep s.gval (s.procs x.1) x.2).map fun r =>
    { gval := r.1, procs := Function.update s.procs x.1 r.2 }

/-- 12 and `k` increments. -/
def level (k : ℕ) : Int32 := 12 + Int32.ofNat (10 * k)

/-- The process is between the copy and the store of its write. -/
def Proc.Writing (x : Proc) : Prop := x.pc = .load ∨ x.pc = .store

/-- The process has written. -/
def Proc.Wrote (x : Proc) : Prop :=
  x.fd = true ∧ (x.pc = .read ∨ x.pc = .printf ∨ x.pc = .close ∨ x.pc = .exited)

instance (x : Proc) : Decidable x.Writing := inferInstanceAs (Decidable (_ ∨ _))

instance (x : Proc) : Decidable x.Wrote := inferInstanceAs (Decidable (_ ∧ _))

/-- The number of processes that have written. -/
def Mains.wrote [Fintype P] (s : Mains P) : ℕ :=
  (Finset.univ.filter fun p => (s.procs p).Wrote).card

/-- No other process is between the copy and the store when a process copies or reads. -/
def NoOverlap (_ : List (P × MainAct)) (s : Mains P) (x : P × MainAct) : Prop :=
  x.2 = .next → (s.procs x.1).pc = .copy ∨ (s.procs x.1).pc = .read →
    ∀ q, q ≠ x.1 → ¬ (s.procs q).Writing

theorem level_succ (k : ℕ) : level (k + 1) = level k + 10 := by
  rw [level, level, Nat.mul_add, Int32.ofNat_add, Int32.add_assoc]
  rfl

theorem level_eq_iterate (k : ℕ) : level k = (· + 10)^[k] 12 := by
  induction k with
  | zero => rfl
  | succ k ih => rw [Function.iterate_succ_apply', ← ih, level_succ]

/-! ## What a step can do -/

/-- The steps of a process, with what enables them. -/
inductive MainSteps (gval : Int32) (x : Proc) : MainAct → Int32 → Proc → Prop
  | opens {ok : Bool} : x.pc = .opens →
    MainSteps gval x (.opens ok) gval { x with pc := .copy, fd := ok }
  | copy : x.pc = .copy → x.fd = true → MainSteps gval x .next x.val { x with pc := .load }
  | badFd : x.pc = .copy → x.fd = false → MainSteps gval x .next gval { x with pc := .read }
  | load : x.pc = .load → MainSteps gval x .next gval { x with pc := .store, reg := gval }
  | store : x.pc = .store → MainSteps gval x .next (x.reg + 10) { x with pc := .read }
  | read : x.pc = .read → MainSteps gval x .next gval
    { x with pc := .printf, val := if x.fd then gval else x.val }
  | printf : x.pc = .printf →
    MainSteps gval x .next gval { x with pc := .close, printed := some x.val }
  | close : x.pc = .close → MainSteps gval x .next gval { x with pc := .exited }

variable {gval gval' : Int32} {x x' : Proc} {b : MainAct} {n m k : ℕ}

theorem mainSteps_of_mainStep (h : mainStep gval x b = some (gval', x')) :
    MainSteps gval x b gval' x' := by
  cases b with
  | opens ok =>
    obtain ⟨hpc, ⟨⟩⟩ := Option.ite_none_right_eq_some.1 h
    exact .opens hpc
  | next =>
    simp only [mainStep] at h
    split at h
    · cases h
    · cases h
    · next hpc =>
      split at h
      · next hfd => cases h; exact .copy hpc hfd
      · next hfd => cases h; exact .badFd hpc (by simpa using hfd)
    · next hpc => cases h; exact .load hpc
    · next hpc => cases h; exact .store hpc
    · next hpc => cases h; exact .read hpc
    · next hpc => cases h; exact .printf hpc
    · next hpc => cases h; exact .close hpc

/-- Only the store of the increment completes a write. -/
theorem MainSteps.wrote_iff (h : MainSteps gval x b gval' x') (hfd : x.pc = .store → x.fd = true) :
    x'.Wrote ↔ x.Wrote ∨ x.pc = .store := by
  cases h with
  | opens hpc | load hpc | read hpc | printf hpc | close hpc => simp [Proc.Wrote, hpc]
  | copy hpc | badFd hpc => simp_all [Proc.Wrote]
  | store hpc => simp [Proc.Wrote, hpc, hfd hpc]

/-! ## What a process holds -/

/-- What a process has read. -/
def Proc.Value (n : ℕ) (x : Proc) : Prop :=
  if x.fd = true then ∃ k ≤ n, x.val = level k else x.val = 12

/-- What a process holds, by where it stands, when `n` processes have written. -/
inductive Inside (n : ℕ) (x : Proc) : MainPc → Prop
  | opens : x.val = 12 → x.printed = none → Inside n x .opens
  | copy : x.val = 12 → x.printed = none → Inside n x .copy
  | load : x.fd = true → x.val = 12 → x.printed = none → Inside n x .load
  | store : x.fd = true → x.val = 12 → x.printed = none → (∃ k ≤ n, x.reg = level k) →
    Inside n x .store
  | read : x.val = 12 → x.printed = none → Inside n x .read
  | printf : x.Value n → x.printed = none → Inside n x .printf
  | close : x.Value n → x.printed = some x.val → Inside n x .close
  | exited : x.Value n → x.printed = some x.val → Inside n x .exited

theorem Proc.Value.mono (h : x.Value n) (hnm : n ≤ m) : x.Value m := by
  unfold Proc.Value at h ⊢
  split
  · next hfd =>
    obtain ⟨k, hk, hval⟩ := (if_pos hfd).mp h
    exact ⟨k, hk.trans hnm, hval⟩
  · next hfd => exact (if_neg hfd).mp h

theorem Inside.mono {pc : MainPc} (h : Inside n x pc) (hnm : n ≤ m) : Inside m x pc := by
  cases h with
  | opens hval hprinted => exact .opens hval hprinted
  | copy hval hprinted => exact .copy hval hprinted
  | load hfd hval hprinted => exact .load hfd hval hprinted
  | store hfd hval hprinted hreg =>
    obtain ⟨k, hk, hreg⟩ := hreg
    exact .store hfd hval hprinted ⟨k, hk.trans hnm, hreg⟩
  | read hval hprinted => exact .read hval hprinted
  | printf hval hprinted => exact .printf (hval.mono hnm) hprinted
  | close hval hprinted => exact .close (hval.mono hnm) hprinted
  | exited hval hprinted => exact .exited (hval.mono hnm) hprinted

/-- A step of a process that finds one of the levels in `gval` wherever it looks at it. -/
theorem Inside.step (hx : Inside n x x.pc) (h : MainSteps gval x b gval' x')
    (hgval : x.fd = true → x.pc ≠ .copy → ∃ k ≤ n, gval = level k) : Inside n x' x'.pc := by
  generalize hpc' : x.pc = pc at hx
  cases h with
  | opens hpc =>
    obtain rfl := hpc.symm.trans hpc'
    cases hx with
    | opens hval hprinted => exact .copy hval hprinted
  | copy hpc hfd =>
    obtain rfl := hpc.symm.trans hpc'
    cases hx with
    | copy hval hprinted => exact .load hfd hval hprinted
  | badFd hpc =>
    obtain rfl := hpc.symm.trans hpc'
    cases hx with
    | copy hval hprinted => exact .read hval hprinted
  | load hpc =>
    obtain rfl := hpc.symm.trans hpc'
    cases hx with
    | load hfd hval hprinted =>
      exact .store hfd hval hprinted (hgval hfd (by simp [hpc]))
  | store hpc =>
    obtain rfl := hpc.symm.trans hpc'
    cases hx with
    | store hfd hval hprinted => exact .read hval hprinted
  | read hpc =>
    obtain rfl := hpc.symm.trans hpc'
    cases hx with
    | read hval hprinted =>
      refine .printf ?_ hprinted
      unfold Proc.Value
      split
      · next hfd => simpa [hfd] using hgval hfd (by simp [hpc])
      · next hfd => simpa [hfd] using hval
  | printf hpc =>
    obtain rfl := hpc.symm.trans hpc'
    cases hx with
    | printf hval => exact .close hval rfl
  | close hpc =>
    obtain rfl := hpc.symm.trans hpc'
    cases hx with
    | close hval hprinted => exact .exited hval hprinted

/-! ## The processes -/

variable [DecidableEq P] {s t : Mains P} {a : P × MainAct} {run : List (P × MainAct)} {p q : P}

theorem steps_of_mainsStep (h : mainsStep s a = some t) : ∃ gval x,
    MainSteps s.gval (s.procs a.1) a.2 gval x ∧
      t = { gval, procs := Function.update s.procs a.1 x } := by
  obtain ⟨⟨gval, x⟩, hx, rfl⟩ := Option.map_eq_some_iff.1 h
  exact ⟨gval, x, mainSteps_of_mainStep hx, rfl⟩

/-- A write that nothing interrupts is `dmisc_write` on the bytes, and a read is `dmisc_read`. -/
theorem mains_refines {mem user : Memory} {addr buf : ℕ}
    (hgval : s.gval = loadInt mem addr) (hfd : (s.procs p).fd = true) :
    ((s.procs p).pc = .copy → (s.procs p).val = loadInt user buf → ∃ t,
      exec mainsStep s [(p, .next), (p, .next), (p, .next)] = some t ∧
        t.gval = loadInt (dmiscWrite mem user addr buf 4 0).2 addr) ∧
      ((s.procs p).pc = .read → ∃ t, mainsStep s (p, .next) = some t ∧
        (t.procs p).val = loadInt (apply user (dmiscRead mem addr buf 4 0).2) buf) := by
  constructor
  · intro hpc hval
    refine ⟨{ gval := (s.procs p).val + 10
              procs := Function.update s.procs p
                { s.procs p with pc := .read, reg := (s.procs p).val } }, ?_, ?_⟩
    · simp [mainsStep, mainStep, hpc, hfd]
    · rw [dmiscWrite_gval, hval]
  · intro hpc
    refine ⟨{ gval := s.gval
              procs := Function.update s.procs p
                { s.procs p with pc := .printf, val := s.gval } }, ?_, ?_⟩
    · simp [mainsStep, mainStep, hpc, hfd]
    · rw [dmiscRead_gval, ← hgval]
      simp

/-! ## Writes that do not overlap -/

/-- The process has read. -/
def Proc.Late (x : Proc) : Prop := x.pc = .printf ∨ x.pc = .close ∨ x.pc = .exited

/-- At most one process is writing, with 12 in `gval`; while none is, and one has written, 22 is. -/
structure Exclusive (s : Mains P) : Prop where
  one : ∀ p q, (s.procs p).Writing → (s.procs q).Writing → p = q
  load : ∀ p, (s.procs p).pc = .load → s.gval = 12
  store : ∀ p, (s.procs p).pc = .store → (s.procs p).reg = 12
  idle : (∀ p, ¬ (s.procs p).Writing) → ∀ p, (s.procs p).Wrote → s.gval = 22
  late : ∀ p, (s.procs p).fd = true → (s.procs p).Late → (s.procs p).val = 22

/-- A step of a process that is not writing, before and after. -/
theorem Exclusive.quiet {x : Proc} (he : Exclusive s) (hp : ¬ (s.procs p).Writing)
    (hx : ¬ x.Writing) (hwrote : x.Wrote → (s.procs p).Wrote)
    (hlate : x.fd = true → x.Late → x.val = 22) :
    Exclusive { gval := s.gval, procs := Function.update s.procs p x } := by
  have hne : ∀ q, (Function.update s.procs p x q).Writing → q ≠ p := by
    rintro q hq rfl
    exact hx (by simpa using hq)
  constructor
  · intro q r hq hr
    have hqp := hne q hq
    have hrp := hne r hr
    simp only [Function.update_of_ne hqp, Function.update_of_ne hrp] at hq hr
    exact he.one q r hq hr
  · intro q hq
    have hqp := hne q (.inl hq)
    simp only [Function.update_of_ne hqp] at hq
    exact he.load q hq
  · intro q hq
    have hqp := hne q (.inr hq)
    simp only [Function.update_of_ne hqp] at hq ⊢
    exact he.store q hq
  · intro hidle q hq
    have hidle' : ∀ r, ¬ (s.procs r).Writing := by
      intro r hr
      by_cases hrp : r = p
      · exact hp (hrp ▸ hr)
      · exact hidle r (by simpa only [Function.update_of_ne hrp] using hr)
    by_cases hqp : q = p
    · subst hqp
      exact he.idle hidle' q (hwrote (by simpa using hq))
    · exact he.idle hidle' q (by simpa only [Function.update_of_ne hqp] using hq)
  · intro q hfd hq
    by_cases hqp : q = p
    · subst hqp
      simp only [Function.update_self] at hfd hq ⊢
      exact hlate hfd hq
    · simp only [Function.update_of_ne hqp] at hfd hq ⊢
      exact he.late q hfd hq

/-- A step after which only the process itself may be writing. -/
theorem Exclusive.alone {x : Proc} {gval : Int32} (he : Exclusive s)
    (hothers : ∀ q, q ≠ p → ¬ (s.procs q).Writing) (hload : x.pc = .load → gval = 12)
    (hstore : x.pc = .store → x.reg = 12) (hidle : ¬ x.Writing → gval = 22) (hx : ¬ x.Late) :
    Exclusive { gval, procs := Function.update s.procs p x } := by
  have heq : ∀ q, (Function.update s.procs p x q).Writing → q = p := by
    intro q hq
    by_contra hqp
    exact hothers q hqp (by simpa only [Function.update_of_ne hqp] using hq)
  constructor
  · exact fun q r hq hr => (heq q hq).trans (heq r hr).symm
  · intro q hq
    obtain rfl := heq q (.inl hq)
    exact hload (by simpa using hq)
  · intro q hq
    obtain rfl := heq q (.inr hq)
    simp only [Function.update_self] at hq ⊢
    exact hstore hq
  · exact fun hnone _ _ => hidle (by simpa using hnone p)
  · intro q hfd hq
    by_cases hqp : q = p
    · subst hqp
      exact absurd (by simpa using hq) hx
    · simp only [Function.update_of_ne hqp] at hfd hq ⊢
      exact he.late q hfd hq

/-! ## Processes that run one after the other -/

/-- The processes `ps` run the same steps, one process after the other. -/
theorem exec_each {f : Int32 → Int32} {A B : Proc → Prop} {I : Int32 → Prop} {l : List MainAct}
    (hone : ∀ {s : Mains P} {p}, I s.gval → A (s.procs p) → ∃ x,
      exec mainsStep s (l.map (p, ·)) =
        some { gval := f s.gval, procs := Function.update s.procs p x } ∧ B x)
    (hI : ∀ g, I g → I (f g)) {ps : List P} (hnodup : ps.Nodup) (hs : I s.gval)
    (hA : ∀ p ∈ ps, A (s.procs p)) :
    ∃ t, exec mainsStep s (ps.flatMap fun p => l.map (p, ·)) = some t ∧
      t.gval = f^[ps.length] s.gval ∧ (∀ p ∈ ps, B (t.procs p)) ∧
      ∀ p, p ∉ ps → t.procs p = s.procs p := by
  induction ps generalizing s with
  | nil => exact ⟨s, rfl, rfl, nofun, fun _ _ => rfl⟩
  | cons p ps ih =>
    obtain ⟨hp, hnodup⟩ := List.nodup_cons.1 hnodup
    obtain ⟨hAp, hA⟩ := List.forall_mem_cons.1 hA
    obtain ⟨x, hx, hB⟩ := hone hs hAp
    obtain ⟨t, ht, hgval, hBt, hrest⟩ := ih
      (s := { gval := f s.gval, procs := Function.update s.procs p x }) hnodup (hI _ hs) (by
        intro q hq
        have hne : q ≠ p := fun h => hp (h ▸ hq)
        simpa only [Function.update_of_ne hne] using hA q hq)
    refine ⟨t, ?_, ?_, ?_, ?_⟩
    · rw [List.flatMap_cons]
      exact exec_join hx ht
    · rw [List.length_cons, Function.iterate_succ_apply]
      exact hgval
    · refine List.forall_mem_cons.2 ⟨?_, hBt⟩
      rw [hrest p hp]
      simpa only [Function.update_self] using hB
    · intro q hq
      obtain ⟨hne, hq⟩ := not_or.1 (mt List.mem_cons.2 hq)
      rw [hrest q hq]
      exact Function.update_of_ne hne ..

/-- The processes write, one after the other. -/
theorem exec_writes {ps : List P} (hnodup : ps.Nodup) (hinit : ∀ p ∈ ps, s.procs p = .init) :
    ∃ run t, exec mainsStep s run = some t ∧
      (∀ p ∈ ps, (t.procs p).pc = .read ∧ (t.procs p).fd = true) ∧
      ∀ p, p ∉ ps → t.procs p = s.procs p := by
  obtain ⟨t, h, -, hread, hrest⟩ := exec_each (f := fun _ => 22) (A := fun x => x = .init)
    (B := fun x => x.pc = .read ∧ x.fd = true) (I := fun _ => True)
    (l := [.opens true, .next, .next, .next]) (by
      intro s p _ hA
      exact ⟨_, by simp [mainsStep, mainStep, hA, Proc.init]; rfl, rfl, rfl⟩)
    (fun _ _ => trivial) hnodup trivial hinit
  exact ⟨_, t, h, hread, hrest⟩

/-- The processes copy into `gval`. -/
theorem exec_copies {ps : List P} (hnodup : ps.Nodup) (hne : ps ≠ [])
    (hinit : ∀ p ∈ ps, s.procs p = .init) :
    ∃ run t, exec mainsStep s run = some t ∧ t.gval = 12 ∧
      (∀ p ∈ ps, (t.procs p).pc = .load ∧ (t.procs p).fd = true) ∧
      ∀ p, p ∉ ps → t.procs p = s.procs p := by
  obtain ⟨t, h, hgval, hload, hrest⟩ := exec_each (f := fun _ => 12) (A := fun x => x = .init)
    (B := fun x => x.pc = .load ∧ x.fd = true) (I := fun _ => True)
    (l := [.opens true, .next]) (by
      intro s p _ hA
      exact ⟨_, by simp [mainsStep, mainStep, hA, Proc.init]; rfl, rfl, rfl⟩)
    (fun _ _ => trivial) hnodup trivial hinit
  obtain ⟨n, hn⟩ := Nat.exists_eq_succ_of_ne_zero (mt List.length_eq_zero_iff.1 hne)
  refine ⟨_, t, h, ?_, hload, hrest⟩
  rw [hgval, hn, Function.iterate_succ_apply']

/-- The processes increment `gval`, and no increment is lost. -/
theorem exec_increments {ps : List P} (hnodup : ps.Nodup) (hgval : s.gval = 12)
    (hload : ∀ p ∈ ps, (s.procs p).pc = .load ∧ (s.procs p).fd = true) :
    ∃ run t, exec mainsStep s run = some t ∧ t.gval = level ps.length ∧
      (∀ p ∈ ps, (t.procs p).pc = .read ∧ (t.procs p).fd = true) ∧
      ∀ p, p ∉ ps → t.procs p = s.procs p := by
  obtain ⟨t, h, hlevel, hread, hrest⟩ := exec_each (f := (· + 10))
    (A := fun x => x.pc = .load ∧ x.fd = true) (B := fun x => x.pc = .read ∧ x.fd = true)
    (I := fun _ => True) (l := [.next, .next]) (by
      intro s p _ hA
      exact ⟨{ s.procs p with pc := .read, reg := s.gval },
        by simp [mainsStep, mainStep, hA.1], rfl, hA.2⟩)
    (fun _ _ => trivial) hnodup trivial hload
  refine ⟨_, t, h, ?_, hread, hrest⟩
  rw [hlevel, hgval, level_eq_iterate]

/-- The processes read, print and end. -/
theorem exec_prints {ps : List P} {v : Int32} (hnodup : ps.Nodup) (hgval : s.gval = v)
    (hread : ∀ p ∈ ps, (s.procs p).pc = .read ∧ (s.procs p).fd = true) :
    ∃ run t, exec mainsStep s run = some t ∧ t.gval = v ∧
      ∀ p ∈ ps, (t.procs p).pc = .exited ∧ (t.procs p).fd = true ∧
        (t.procs p).printed = some v := by
  obtain ⟨t, h, hend, hprinted, -⟩ := exec_each (f := id)
    (A := fun x => x.pc = .read ∧ x.fd = true)
    (B := fun x => x.pc = .exited ∧ x.fd = true ∧ x.printed = some v)
    (I := fun gval => gval = v) (l := [.next, .next, .next]) (by
      intro s p hgval hA
      refine ⟨{ s.procs p with
        pc := .exited, val := s.gval, printed := some s.gval }, ?_, rfl, hA.2, congrArg some hgval⟩
      simp [mainsStep, mainStep, hA.1, hA.2])
    (fun _ h => h) hnodup hgval hread
  rw [Function.iterate_id] at hend
  exact ⟨_, t, h, hend.trans hgval, hprinted⟩

/-- Where the processes `bs` have all copied before the first of them loads, none of their
increments is lost, and all processes print the sum. -/
theorem exec_level {as bs : List P} (hnodup : (as ++ bs).Nodup) (hbs : bs ≠ []) :
    ∃ run t, exec mainsStep .init run = some t ∧ t.gval = level bs.length ∧
      ∀ p ∈ as ++ bs, (t.procs p).pc = .exited ∧ (t.procs p).fd = true ∧
        (t.procs p).printed = some (level bs.length) := by
  obtain ⟨has, hbsNodup, hdisjoint⟩ := List.nodup_append.1 hnodup
  obtain ⟨_, s₁, h₁, hread₁, hrest₁⟩ := exec_writes has (s := .init) fun _ _ => rfl
  have hinit : ∀ p ∈ bs, s₁.procs p = .init := by
    intro p hp
    rw [hrest₁ p fun hpa => hdisjoint p hpa p hp rfl]
    rfl
  obtain ⟨_, s₂, h₂, hgval₂, hload₂, hrest₂⟩ := exec_copies hbsNodup hbs hinit
  obtain ⟨_, s₃, h₃, hgval₃, hread₃, hrest₃⟩ := exec_increments hbsNodup hgval₂ hload₂
  have hread : ∀ p ∈ as ++ bs, (s₃.procs p).pc = .read ∧ (s₃.procs p).fd = true := by
    intro p hp
    by_cases hpb : p ∈ bs
    · exact hread₃ p hpb
    · rw [hrest₃ p hpb, hrest₂ p hpb]
      exact hread₁ p ((List.mem_append.1 hp).resolve_right hpb)
  obtain ⟨_, s₄, h₄, hgval₄, hprinted⟩ := exec_prints hnodup hgval₃ hread
  exact ⟨_, s₄, exec_join (exec_join (exec_join h₁ h₂) h₃) h₄, hgval₄, hprinted⟩

/-! ## What `gval` holds -/

variable [Fintype P]

/-- What holds in every run: `gval` is a level, the bare 12 only as long as a process is writing, or
nothing has been copied into it. -/
structure MainsOk (s : Mains P) : Prop where
  procs : ∀ p, Inside s.wrote (s.procs p) (s.procs p).pc
  gval : (∃ k ≤ s.wrote, s.gval = level k ∧ (k = 0 → ∃ p, (s.procs p).Writing)) ∨
    s.gval = 0 ∧ ∀ p, (s.procs p).fd = true → (s.procs p).pc = .copy

theorem Inside.fd (h : Inside n x x.pc) (hpc : x.Writing) : x.fd = true := by
  generalize hpc' : x.pc = pc at h
  rcases hpc with hpc | hpc <;> obtain rfl := hpc.symm.trans hpc'
  · cases h with
    | load hfd => exact hfd
  · cases h with
    | store hfd => exact hfd

/-- The writes that have been completed after a step. -/
theorem MainsOk.wrote_step {x : Proc} {gval : Int32} (hs : MainsOk s)
    (h : MainSteps s.gval (s.procs p) b gval x) :
    ({ gval, procs := Function.update s.procs p x } : Mains P).wrote =
      s.wrote + if (s.procs p).pc = .store then 1 else 0 := by
  have hiff := h.wrote_iff fun hpc => (hs.procs p).fd (.inr hpc)
  unfold Mains.wrote
  split
  · next hpc =>
    have hp : p ∉ Finset.univ.filter fun q => (s.procs q).Wrote := by
      rw [Finset.mem_filter]
      simp [Proc.Wrote, hpc]
    rw [← Finset.card_insert_of_notMem hp]
    congr 1
    ext q
    by_cases hq : q = p
    · simp [hq, hiff, hpc]
    · simp [hq]
  · next hpc =>
    rw [Nat.add_zero]
    congr 1
    ext q
    by_cases hq : q = p
    · simp [hq, hiff, hpc]
    · simp [hq]

/-- A step that leaves `gval` alone. -/
theorem MainsOk.gval_step {x : Proc} (hs : MainsOk s) (hn : s.wrote ≤ n)
    (hwriting : (s.procs p).Writing → x.Writing)
    (hfd : x.fd = true → x.pc = .copy ∨ (s.procs p).fd = true ∧ (s.procs p).pc ≠ .copy) :
    (∃ k ≤ n, s.gval = level k ∧ (k = 0 → ∃ q, (Function.update s.procs p x q).Writing)) ∨
      s.gval = 0 ∧ ∀ q, (Function.update s.procs p x q).fd = true →
        (Function.update s.procs p x q).pc = .copy := by
  rcases hs.gval with ⟨k, hk, hgval, hzero⟩ | ⟨hgval, hcopy⟩
  · refine .inl ⟨k, hk.trans hn, hgval, fun hk => ?_⟩
    obtain ⟨q, hq⟩ := hzero hk
    refine ⟨q, ?_⟩
    by_cases hqp : q = p
    · subst hqp
      simpa using hwriting hq
    · simpa [hqp] using hq
  · refine .inr ⟨hgval, fun q hq => ?_⟩
    by_cases hqp : q = p
    · subst hqp
      simp only [Function.update_self] at hq ⊢
      exact (hfd hq).resolve_right fun h => h.2 (hcopy q h.1)
    · simp only [Function.update_of_ne hqp] at hq ⊢
      exact hcopy q hq

/-- A step leaves `gval` at a level that the writes so far can have reached. -/
theorem MainsOk.step (hs : MainsOk s) (h : mainsStep s a = some t) : MainsOk t := by
  obtain ⟨gval, x, hstep, rfl⟩ := steps_of_mainsStep h
  obtain ⟨p, b⟩ := a
  have hwrote := hs.wrote_step hstep
  have hle : s.wrote ≤ ({ gval, procs := Function.update s.procs p x } : Mains P).wrote :=
    hwrote ▸ Nat.le_add_right _ _
  have hx := hs.procs p
  constructor
  · intro q
    by_cases hq : q = p
    · subst hq
      simp only [Function.update_self]
      refine (hx.step hstep fun hfd hpc => ?_).mono hle
      rcases hs.gval with ⟨k, hk, hgval, -⟩ | ⟨-, hcopy⟩
      · exact ⟨k, hk, hgval⟩
      · exact absurd (hcopy q hfd) hpc
    · simp only [Function.update_of_ne hq]
      exact (hs.procs q).mono hle
  · generalize hpc' : (s.procs p).pc = pc at hx
    cases hstep with
    | opens hpc => exact hs.gval_step hle (by simp [Proc.Writing, hpc]) fun _ => .inl rfl
    | copy hpc =>
      obtain rfl := hpc.symm.trans hpc'
      cases hx with
      | copy hval => exact .inl ⟨0, Nat.zero_le _, hval, fun _ => ⟨p, by simp [Proc.Writing]⟩⟩
    | badFd hpc hfd =>
      exact hs.gval_step hle (by simp [Proc.Writing, hpc]) fun h => by simp [hfd] at h
    | load hpc =>
      exact hs.gval_step hle (fun _ => .inr rfl) fun h => .inr ⟨h, by simp [hpc]⟩
    | store hpc =>
      obtain rfl := hpc.symm.trans hpc'
      cases hx with
      | store _ _ _ hreg =>
        obtain ⟨k, hk, hreg⟩ := hreg
        refine .inl ⟨k + 1, ?_, ?_, nofun⟩
        · rw [hwrote, if_pos hpc]
          exact Nat.succ_le_succ hk
        · rw [hreg, level_succ]
    | read hpc | printf hpc | close hpc =>
      exact hs.gval_step hle (by simp [Proc.Writing, hpc]) fun h => .inr ⟨h, by simp [hpc]⟩

/-- In every run `gval` is at a level that the writes so far can have reached. -/
theorem reachable_mainsOk (h : exec mainsStep .init run = some s) : MainsOk s := by
  refine exec_induction (P := fun _ s => MainsOk s) ⟨fun _ => .opens rfl rfl, ?_⟩ ?_ h
  · exact .inr ⟨rfl, fun _ h => by simp [Mains.init, Proc.init] at h⟩
  · exact fun _ hs hstep => hs.step hstep

/-- A step that does not overlap with another process's write keeps `gval` at 12 within a write and
at 22 behind it. -/
theorem Exclusive.step (he : Exclusive s) (hs : MainsOk s) (hno : NoOverlap run s a)
    (h : mainsStep s a = some t) : Exclusive t := by
  obtain ⟨gval, x, hstep, rfl⟩ := steps_of_mainsStep h
  obtain ⟨p, b⟩ := a
  have hx := hs.procs p
  have hwrote := hstep.wrote_iff fun hpc => hx.fd (.inr hpc)
  generalize hpc' : (s.procs p).pc = pc at hx
  have hothers : (s.procs p).Writing → ∀ q, q ≠ p → ¬ (s.procs q).Writing :=
    fun hp q hne hq => hne (he.one q p hq hp)
  cases hstep with
  | opens hpc =>
    exact he.quiet (by simp [Proc.Writing, hpc]) (by simp [Proc.Writing]) (by simp [Proc.Wrote])
      (by simp [Proc.Late])
  | copy hpc =>
    obtain rfl := hpc.symm.trans hpc'
    cases hx with
    | copy hval =>
      exact he.alone (hno rfl (.inl hpc)) (fun _ => hval) nofun (by simp [Proc.Writing])
        (by simp [Proc.Late])
  | badFd hpc hfd =>
    exact he.quiet (by simp [Proc.Writing, hpc]) (by simp [Proc.Writing])
      (by simp [Proc.Wrote, hfd]) (by simp [Proc.Late])
  | load hpc =>
    exact he.alone (hothers (.inl hpc)) nofun (fun _ => he.load p hpc) (by simp [Proc.Writing])
      (by simp [Proc.Late])
  | store hpc =>
    refine he.alone (hothers (.inr hpc)) nofun nofun (fun _ => ?_) (by simp [Proc.Late])
    rw [he.store p hpc]
    rfl
  | read hpc =>
    refine he.quiet (by simp [Proc.Writing, hpc]) (by simp [Proc.Writing])
      (by simp [Proc.Wrote, hpc]) fun hfd _ => ?_
    have hidle : ∀ q, ¬ (s.procs q).Writing := by
      intro q
      by_cases hq : q = p
      · simp [hq, Proc.Writing, hpc]
      · exact hno rfl (.inr hpc) q hq
    exact (if_pos hfd).trans (he.idle hidle p ⟨hfd, .inl hpc⟩)
  | printf hpc =>
    refine he.quiet (by simp [Proc.Writing, hpc]) (by simp [Proc.Writing])
      (by simp [Proc.Wrote, hpc]) fun hfd _ => he.late p hfd (.inl hpc)
  | close hpc =>
    refine he.quiet (by simp [Proc.Writing, hpc]) (by simp [Proc.Writing])
      (by simp [Proc.Wrote, hpc]) fun hfd _ => he.late p hfd (.inr (.inl hpc))

theorem reachable_exclusive (h : exec mainsStep .init run = some s)
    (hno : Meets mainsStep .init NoOverlap run) : Exclusive s := by
  refine hno.induction (P := fun _ s => Exclusive s) ?_ ?_ h
  · constructor <;> simp [Mains.init, Proc.init, Proc.Writing, Proc.Wrote, Proc.Late]
  · exact fun hrun hs hno hstep => hs.step (reachable_mainsOk hrun) hno hstep

/-- What a process has printed is what it has read. -/
theorem Inside.of_printed {v : Int32} (h : Inside n x x.pc) (hv : x.printed = some v) :
    x.Late ∧ x.val = v ∧ x.Value n := by
  generalize hpc : x.pc = pc at h
  cases h with
  | opens _ hnone | copy _ hnone | load _ _ hnone | store _ _ hnone | read _ hnone
  | printf _ hnone => simp [hnone] at hv
  | close hval hprinted =>
    exact ⟨.inr (.inl hpc), Option.some.inj (hprinted.symm.trans hv), hval⟩
  | exited hval hprinted =>
    exact ⟨.inr (.inr hpc), Option.some.inj (hprinted.symm.trans hv), hval⟩

/-- **What the processes print.** In every run of any number of processes, with opens that fail: a
process prints 12 and 10 for some number of increments, of which there are no more than processes,
and the bare 12 if its open failed; and if no process copies or reads while another one is between
the copy and the store of its write, all processes whose open succeeded print 22. -/
theorem main_prints {P : Type} [Fintype P] [DecidableEq P] (run : List (P × MainAct)) (s : Mains P)
    (h : exec mainsStep .init run = some s) :
    (∀ p v, (s.procs p).printed = some v →
        if (s.procs p).fd = true then ∃ k ≤ Fintype.card P, v = level k else v = 12) ∧
      (Meets mainsStep .init NoOverlap run →
        ∀ p v, (s.procs p).printed = some v → (s.procs p).fd = true → v = 22) := by
  have hs := reachable_mainsOk h
  constructor
  · intro p v hv
    obtain ⟨-, rfl, hval⟩ := (hs.procs p).of_printed hv
    exact hval.mono (Finset.card_le_univ _)
  · intro hno p v hv hfd
    obtain ⟨hlate, rfl, -⟩ := (hs.procs p).of_printed hv
    exact (reachable_exclusive h hno).late p hfd hlate

instance {x : P × MainAct} : Decidable (NoOverlap run s x) :=
  inferInstanceAs (Decidable (_ → _ → _))

/-- One process after the other. -/
theorem main_prints_serial : ∃ s : Mains (Fin 2), exec mainsStep .init
      [(0, .opens true), (0, .next), (0, .next), (0, .next), (0, .next), (0, .next),
        (1, .opens true), (1, .next), (1, .next), (1, .next), (1, .next), (1, .next)] = some s ∧
    ∀ p v, (s.procs p).printed = some v → (s.procs p).fd = true → v = 22 := by
  obtain ⟨s, hs⟩ : ∃ s : Mains (Fin 2), exec mainsStep .init
      [(0, .opens true), (0, .next), (0, .next), (0, .next), (0, .next), (0, .next),
        (1, .opens true), (1, .next), (1, .next), (1, .next), (1, .next), (1, .next)] = some s :=
    ⟨_, rfl⟩
  exact ⟨s, hs, (main_prints _ s hs).2 (by decide +kernel)⟩

/-- The first process reads what the second one has copied and not yet incremented. -/
example : ∃ s : Mains (Fin 2), exec mainsStep .init
      [(0, .opens true), (0, .next), (0, .next), (0, .next), (1, .opens true), (1, .next),
        (0, .next), (0, .next)] = some s ∧ (s.procs 0).printed = some 12 :=
  ⟨_, rfl, rfl⟩

/-- `k` of the processes overlap, after the others have written. -/
theorem exists_level {k : ℕ} (hk : 1 ≤ k) (hle : k ≤ Fintype.card P) :
    ∃ (run : List (P × MainAct)) (s : Mains P), exec mainsStep .init run = some s ∧
      s.gval = level k ∧ ∀ p, (s.procs p).pc = .exited ∧ (s.procs p).fd = true ∧
        (s.procs p).printed = some (level k) := by
  have hlength : (Finset.univ : Finset P).toList.length = Fintype.card P :=
    Finset.length_toList _
  obtain ⟨as, bs, hsplit, rfl⟩ : ∃ as bs : List P,
      (Finset.univ : Finset P).toList = as ++ bs ∧ bs.length = k := by
    refine ⟨_, _, (List.take_append_drop (Fintype.card P - k) _).symm, ?_⟩
    rw [List.length_drop, hlength]
    omega
  obtain ⟨run, s, h, hgval, hprocs⟩ :=
    exec_level (hsplit ▸ Finset.nodup_toList _) (List.ne_nil_of_length_pos hk)
  exact ⟨run, s, h, hgval, fun p => hprocs p (hsplit ▸ Finset.mem_toList.2 (Finset.mem_univ p))⟩

/-- **The final values of `gval`.** When all processes have ended and one of them had opened the
device, `gval` is 12 and 10 for some number of increments, at least one and at most one for each
process; it can be any of these, and so can what all processes print. -/
theorem final_gval_iff {P : Type} [Fintype P] [DecidableEq P] :
    (∀ v, (∃ (run : List (P × MainAct)) (s : Mains P), exec mainsStep .init run = some s ∧
        (∀ p, (s.procs p).pc = .exited) ∧ (∃ p, (s.procs p).fd = true) ∧ s.gval = v) ↔
      ∃ k ∈ Finset.Icc 1 (Fintype.card P), v = level k) ∧
    ∀ k ∈ Finset.Icc 1 (Fintype.card P), ∃ (run : List (P × MainAct)) (s : Mains P),
      exec mainsStep .init run = some s ∧ ∀ p, (s.procs p).printed = some (level k) := by
  refine ⟨fun v => ⟨?_, ?_⟩, fun k hk => ?_⟩
  · rintro ⟨run, s, h, hexited, ⟨p, hfd⟩, rfl⟩
    rcases (reachable_mainsOk h).gval with ⟨k, hk, hgval, hzero⟩ | ⟨-, hcopy⟩
    · refine ⟨k, Finset.mem_Icc.2 ⟨Nat.one_le_iff_ne_zero.2 fun hk => ?_,
        hk.trans (Finset.card_le_univ _)⟩, hgval⟩
      obtain ⟨q, hq⟩ := hzero hk
      simp [Proc.Writing, hexited q] at hq
    · exact absurd ((hexited p).symm.trans (hcopy p hfd)) (by decide)
  · rintro ⟨k, hk, rfl⟩
    obtain ⟨hk, hle⟩ := Finset.mem_Icc.1 hk
    obtain ⟨p⟩ : Nonempty P := Fintype.card_pos_iff.1 (hk.trans hle)
    obtain ⟨run, s, h, hgval, hprocs⟩ := exists_level hk hle
    exact ⟨run, s, h, fun q => (hprocs q).1, ⟨p, (hprocs p).2.1⟩, hgval⟩
  · obtain ⟨hk, hle⟩ := Finset.mem_Icc.1 hk
    obtain ⟨run, s, h, -, hprocs⟩ := exists_level hk hle
    exact ⟨run, s, h, fun p => (hprocs p).2.2⟩

end Starrysky.Misc
