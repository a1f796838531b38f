import Starrysky.Miniature.Devices

/-!
# One device among any number

The machine of `MiniDevice` has one platform device and takes a probe as one step; that of `Devices`
has any number and runs the statements of a probe on the memory of `Probe`. The second does
everything the first does: a run of the one device is a run of the system of devices in which nobody
else is bound and `misc_register` does not fail (`platform_simulates`), on the same objects and
files.
-/

namespace Starrysky.Miniature

open Transition

variable {D F T : Type}

/-- A file operation of the one device, in the system of devices. -/
def InFlight.lift (i : InFlight F) : Operation F := ⟨i.file, i.op, some i.data, i.pc⟩

/-- The devices that are bound when the one device is `d`. -/
def Binding.devices (d : D) : Binding → Finset D
  | .bound _ => {d}
  | .unbound | .removed _ => ∅

/-- What an action of the one device is in the system of devices, where nothing is freed. -/
def Act.onPlatform (d : D) : Act F T → List (PlatformAct D F T)
  | .use u => [.use u]
  | .probe => [.probe d true]
  | .remove => [.remove d]
  | .devmFree => []

/-- The one device as the files and timers of the system of devices see it. -/
structure Matches (s : State F T) (s' : Sys D F T) : Prop where
  timer : ∀ o, (s'.mem.objs o).timer = (s.mini o).timer
  dev : ∀ o < s.probes, (s'.mem.objs o).dev = (s.mini o).dev
  allocated : s'.mem.allocated = s.probes
  minidev : s'.mem.minidev = s.minidev
  drvdata : s'.mem.drvdata = s.drvdata
  registered : s'.mem.registered = s.registered
  opened : s'.opened = s.opened
  ops : s'.ops = s.ops.map fun x => (x.1, x.2.lift)
  minidev_lt : ∀ o, s.minidev = some o → o < s.probes
  drvdata_lt : ∀ o, s.drvdata = some o → o < s.probes
  data_lt : ∀ x ∈ s.ops, x.2.data < s.probes

variable {s t : State F T} {s' : Sys D F T} {u : Use F T} {p : T} {i : InFlight F} {o : ℕ}

theorem Matches.init : Matches (State.init : State F T) (Sys.init : Sys D F T) where
  timer _ := rfl
  dev _ h := absurd h (Nat.not_lt_zero _)
  allocated := rfl
  minidev := rfl
  drvdata := rfl
  registered := rfl
  opened := rfl
  ops := rfl
  minidev_lt _ h := nomatch h
  drvdata_lt _ h := nomatch h
  data_lt _ h := nomatch h

/-- Writes of an object that agree keep the two in agreement. -/
theorem Matches.write (h : Matches s s') {f : Object → Object} {x : MiniDevice}
    (htimer : (s'.mem.objs o).timer = (s.mini o).timer → (f (s'.mem.objs o)).timer = x.timer)
    (hdev : (s'.mem.objs o).dev = (s.mini o).dev → (f (s'.mem.objs o)).dev = x.dev) :
    Matches { s with mini := Function.update s.mini o x }
      { s' with mem := s'.mem.write (some o) f } :=
  { h with
    timer := fun k => by
      by_cases hk : k = o
      · simpa [write_objs, hk] using htimer (h.timer o)
      · simpa [write_objs, hk, Ne.symm hk] using h.timer k
    dev := fun k hlt => by
      by_cases hk : k = o
      · simpa [write_objs, hk] using hdev (h.dev o (hk ▸ hlt))
      · simpa [write_objs, hk, Ne.symm hk] using h.dev k hlt }

/-- A timer is set. -/
theorem Matches.setTimer (h : Matches s s') {f : Object → Object} (g : Hrtimer → Hrtimer)
    (htimer : ∀ x, (f x).timer = g x.timer) (hdev : ∀ x, (f x).dev = x.dev) :
    Matches (s.setTimer o (g (s.mini o).timer)) { s' with mem := s'.mem.write (some o) f } :=
  h.write (fun heq => by rw [htimer, heq]) fun heq => by rw [hdev, heq]

/-- The bytes of an object are written, and perhaps its wake-ups counted. -/
theorem Matches.setDev (h : Matches s s') {f : Object → Object} (g : Press.Device → Press.Device)
    (hdev : ∀ x, (f x).dev = g x.dev) (htimer : ∀ x, (f x).timer = x.timer) :
    Matches (s.setDev o (g (s.mini o).dev)) { s' with mem := s'.mem.write (some o) f } :=
  h.write (fun heq => by rw [htimer, heq]) fun heq => by rw [hdev, heq]

/-- A probe leaves the same object behind in both. -/
theorem Matches.probe [DecidableEq D] (h : Matches s s') (d : D) :
    Matches s.helloProbe { s' with mem := s'.mem.probe d true } := by
  have hlast : ∀ {o}, some s.probes = some o → o < s.probes + 1 := by
    rintro o ⟨⟩
    exact Nat.lt_succ_self _
  rw [helloProbe_eq, h.allocated]
  refine { timer := ?_, dev := ?_, allocated := rfl, minidev := rfl, drvdata := by simp; rfl
           registered := Bool.or_true _, opened := h.opened, ops := h.ops
           minidev_lt := fun o => hlast, drvdata_lt := fun o => hlast
           data_lt := fun x hx => (h.data_lt x hx).trans (Nat.lt_succ_self _) }
  · intro o
    by_cases ho : o = s.probes
    · simp [State.helloProbe, ho, Object.probed]
    · simpa [State.helloProbe, ho] using h.timer o
  · intro o hlt
    by_cases ho : o = s.probes
    · simp [State.helloProbe, ho, Object.probed]
    · have hold : o < s.probes := lt_of_le_of_ne (Nat.le_of_lt_succ hlt) ho
      simpa [State.helloProbe, ho] using h.dev o hold

variable [DecidableEq T]

theorem Matches.op (h : Matches s s') (p : T) : s'.op p = (s.op p).map InFlight.lift := by
  rw [Sys.op, State.op, h.ops, List.find?_map]
  simp [Function.comp_def]

theorem Matches.endOp (h : Matches s s') (p : T) : Matches (s.endOp p) (s'.endOp p) :=
  { h with
    ops := by simp [State.endOp, Sys.endOp, h.ops, List.filter_map, Function.comp_def]
    data_lt := fun x hx => h.data_lt x (mem_endOp hx) }

theorem Matches.setOp (h : Matches s s') (p : T) (hi : i.data < s.probes) :
    Matches (s.setOp p i) (s'.setOp p i.lift) :=
  { h with
    ops := by simp [State.setOp, Sys.setOp, (h.endOp p).ops]
    data_lt := fun x hx => by
      rcases mem_setOp hx with rfl | hx
      · exact hi
      · exact h.data_lt x hx }

variable [DecidableEq F]

/-- **Step lemma.** The files and timers of the one device are files and timers of the system. -/
theorem Matches.use (h : Matches s s') (hs : useStep s u = some t) :
    ∃ t', s'.use u = some t' ∧ Matches t t' := by
  cases uses_of_useStep hs with
  | @opens f o hreg hf ho =>
    have hm := h.setTimer (o := o) (f := fun x => { x with timer := x.timer.start }) Hrtimer.start
      (fun _ => rfl) fun _ => rfl
    refine ⟨{ s' with
      mem := s'.mem.write (some o) fun x => { x with timer := x.timer.start }
      opened := insert f s'.opened }, ?_, { hm with opened := congrArg (insert f) h.opened }⟩
    simp [Sys.use, h.registered, hreg, h.opened, hf, h.drvdata, ho]
  | @release f o timer hf hops ho htimer =>
    have hm := h.setTimer (o := o) (f := fun x => { x with timer }) (fun _ => timer)
      (fun _ => rfl) fun _ => rfl
    have hops' : ∀ x ∈ s'.ops, x.2.file ≠ f := by
      rw [h.ops]
      rintro x hx
      obtain ⟨y, hy, rfl⟩ := List.mem_map.1 hx
      exact hops y hy
    refine ⟨{ s' with
      mem := s'.mem.write (some o) fun x => { x with timer }
      opened := s'.opened.erase f }, ?_, { hm with opened := congrArg (·.erase f) h.opened }⟩
    rw [Sys.use, h.opened, if_pos ⟨hf, hops'⟩, h.drvdata, ho]
    simp [h.timer o, htimer]
  | @call p f op o hf hp ho =>
    refine ⟨_, ?_, h.setOp p (h.drvdata_lt o ho)⟩
    simp [Sys.use, h.opened, hf, h.op, hp, h.drvdata, ho, InFlight.lift]
  | @pass p i hi hop hpc hev =>
    have hlt := h.data_lt _ (mem_ops_of_op hi)
    refine ⟨_, ?_, h.setOp p hlt⟩
    simp [Sys.use, h.op, hi, hop, hpc, h.dev _ hlt, hev, InFlight.lift]
  | @signal p i hi hop hpc =>
    refine ⟨_, ?_, h.setOp p (h.data_lt _ (mem_ops_of_op hi))⟩
    simp [Sys.use, h.op, hi, hop, hpc, InFlight.lift]
  | @copy p i hi hpc =>
    refine ⟨_, ?_, h.setOp p (h.data_lt _ (mem_ops_of_op hi))⟩
    simp [Sys.use, h.op, hi, hpc, InFlight.lift]
  | @clear p i hi hpc =>
    have hm := h.setDev (o := i.data) (f := fun x => { x with dev := x.dev.clearPress })
      Press.Device.clearPress (fun _ => rfl) fun _ => rfl
    refine ⟨_, ?_, hm.endOp p⟩
    simp [Sys.use, h.op, hi, hpc, InFlight.lift]
  | @returns p i hi hop =>
    refine ⟨_, ?_, h.endOp p⟩
    simp [Sys.use, h.op, hi, hop, InFlight.lift]
  | @expire o timer htimer =>
    have hm := h.setTimer (o := o) (f := fun x => { x with timer }) (fun _ => timer)
      (fun _ => rfl) fun _ => rfl
    refine ⟨_, ?_, hm⟩
    simp [Sys.use, h.timer o, htimer]
  | @callback o m timer htimer hm =>
    have hdev := h.setDev (o := m)
      (f := fun x => { x with
        dev := Press.callback .miniatureDriver x.dev, wakeUps := x.wakeUps + 1 })
      (Press.callback .miniatureDriver) (fun _ => rfl) fun _ => rfl
    have hboth := hdev.setTimer (o := o) (f := fun x => { x with timer }) (fun _ => timer)
      (fun _ => rfl) fun _ => rfl
    refine ⟨_, ?_, hboth⟩
    simp [Sys.use, h.timer o, htimer, h.minidev, hm]

variable [DecidableEq D] {d : D}

/-- **Step lemma.** The system of devices follows the one device. -/
theorem platformStep_simulates {a : Act F T} {q : Platform D F T} (h : Matches s q.sys)
    (hq : q.bound = s.binding.devices d) (hs : step s a = some t) :
    ∃ q', exec platformStep q (a.onPlatform d) = some q' ∧ Matches t q'.sys ∧
      q'.bound = t.binding.devices d := by
  cases a with
  | use u =>
    obtain ⟨sys, hsys, hm⟩ := h.use hs
    obtain ⟨-, -, hbinding, -⟩ := (uses_of_useStep hs).frame
    refine ⟨{ q with sys }, by simp [Act.onPlatform, platformStep, hsys], hm, ?_⟩
    rw [hbinding]
    exact hq
  | probe =>
    obtain ⟨hun, ⟨⟩⟩ := Option.ite_none_right_eq_some.1 hs
    have hnone : q.bound = ∅ := by rw [hq, hun]; rfl
    refine ⟨{ sys := { q.sys with mem := q.sys.mem.probe d true }, bound := {d} }, ?_,
      h.probe d, rfl⟩
    simp [Act.onPlatform, platformStep, hnone]
  | remove =>
    simp only [step] at hs
    split at hs
    · next o hbound =>
      cases hs
      have hone : q.bound = {d} := by rw [hq, hbound]; rfl
      refine ⟨{ sys := { q.sys with mem := { q.sys.mem with registered := false } }, bound := ∅ },
        ?_, { h with registered := rfl }, rfl⟩
      simp [Act.onPlatform, platformStep, hone]
    · cases hs
  | devmFree =>
    simp only [step] at hs
    split at hs
    · next o hremoved =>
      cases hs
      exact ⟨q, rfl, { h with }, by rw [hq, hremoved]; rfl⟩
    · cases hs

/-- **Simulation.** Whatever the one device does after the module is loaded, the system of devices
does with its device `d`, on the same objects and files. -/
theorem platform_simulates {run : List (Act F T)} (d : D) (h : exec step .init run = some s) :
    ∃ q : Platform D F T, exec platformStep .init (run.flatMap (Act.onPlatform d)) = some q ∧
      Matches s q.sys ∧ q.bound = s.binding.devices d :=
  exec_simulation
    (R := fun s (q : Platform D F T) => Matches s q.sys ∧ q.bound = s.binding.devices d)
    (fun hR hs => platformStep_simulates hR.1 hR.2 hs) ⟨.init, rfl⟩ h

end Starrysky.Miniature
