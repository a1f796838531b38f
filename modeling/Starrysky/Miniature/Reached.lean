import Starrysky.Miniature.Devices

/-!
# What leads to an object

An object of the miniature driver is reached by its timer, by the threads that have its pointer, by
the files through the driver data of `misc.this_device`, and by all callbacks through `minidev`.
What a step of a client or a timer uses was reached (`reached_of_usesObject`); a step reaches
nothing else, once `misc` leads elsewhere (`reached_of_use`); and what is reached can be used
(`use_of_reached`).
-/

namespace Starrysky.Miniature

open Transition

variable {D F T : Type}

/-- An object is reached: its timer is active, or a thread in a file operation has it, or a file
leads to it, or a callback will write it. -/
def Sys.Reached (s : Sys D F T) (o : ℕ) : Prop :=
  (s.mem.objs o).timer.Active ∨ (∃ x ∈ s.ops, x.2.data = some o) ∨
    s.mem.drvdata = some o ∧ s.opened ≠ ∅ ∨
    s.mem.minidev = some o ∧ ∃ k < s.mem.allocated, (s.mem.objs k).timer.Active

/-- Only the timer of the object that the files lead to is active, while a file is open, and threads
are in operations on open files. -/
structure Sys.Closing (s : Sys D F T) : Prop where
  timer : ∀ k, (s.mem.objs k).timer.Active → s.mem.drvdata = some k ∧ s.opened ≠ ∅
  file : ∀ x ∈ s.ops, x.2.file ∈ s.opened

variable [DecidableEq T]

/-- The objects that a step of a file operation or of a timer uses. The timer is a part of the
object. -/
def Sys.UsesObject (s : Sys D F T) (o : ℕ) : Use F T → Prop
  | .expire k => k = o
  | .callback k => k = o ∨ s.mem.minidev = some o
  | u => s.dereferences u = some (some o)

/-! ## What a step of a client or a timer does -/

variable {s t : Sys D F T} {u : Use F T} {o k : ℕ} {p q : T} {x : T × Operation F}
  {i : Operation F}

theorem write_pdata {m : Memory D} {ptr : Option ℕ} {f : Object → Object} :
    (m.write ptr f).pdata = m.pdata := by
  cases ptr <;> rfl

/-- A write that leaves the timer of the object alone. -/
theorem write_active {m : Memory D} {ptr : Option ℕ} {f : Object → Object}
    (h : ((m.write ptr f).objs k).timer.Active) (hf : ∀ x, (f x).timer = x.timer) :
    (m.objs k).timer.Active := by
  rw [write_objs] at h
  split at h
  · rwa [hf] at h
  · exact h

theorem op_endOp_of_ne (h : q ≠ p) : (s.endOp p).op q = s.op q := by
  rw [Sys.op, Sys.op, Sys.endOp, List.find?_filter]
  congr 2
  funext x
  by_cases hx : x.1 = q
  · simp [hx, h]
  · simp [hx]

theorem op_setOp_of_ne (h : q ≠ p) : (s.setOp p i).op q = s.op q := by
  have hcons : (s.setOp p i).op q = (s.endOp p).op q := by simp [Sys.op, Sys.setOp, h.symm]
  exact hcons.trans (op_endOp_of_ne h)

theorem op_setOp_self : (s.setOp p i).op p = some i := by
  simp [Sys.op, Sys.setOp]

/-- Every thread is in one file operation. -/
def Sys.OpsOk (s : Sys D F T) : Prop := ∀ x ∈ s.ops, s.op x.1 = some x.2

theorem Sys.OpsOk.endOp (h : s.OpsOk) (p : T) : (s.endOp p).OpsOk := by
  intro x hx
  have hne : x.1 ≠ p := by simpa using List.of_mem_filter hx
  rw [op_endOp_of_ne hne]
  exact h x (Sys.mem_endOp hx)

theorem Sys.OpsOk.setOp (h : s.OpsOk) (p : T) (i : Operation F) : (s.setOp p i).OpsOk := by
  intro x hx
  rcases List.mem_cons.1 hx with rfl | hx
  · exact op_setOp_self
  · have hne : x.1 ≠ p := by simpa using List.of_mem_filter hx
    rw [op_setOp_of_ne hne]
    exact h x (Sys.mem_endOp hx)

/-- The thread `p` has left its file operation; the files and the timers are as they were. -/
structure OpEnded (p : T) (s t : Sys D F T) : Prop where
  ops : t.ops = (s.endOp p).ops
  opened : t.opened = s.opened
  drvdata : t.mem.drvdata = s.mem.drvdata
  timer : ∀ k, (t.mem.objs k).timer = (s.mem.objs k).timer

theorem OpEnded.of_setOp (h : OpEnded p (s.setOp p i) t) : OpEnded p s t where
  ops := by
    rw [h.ops]
    simp [Sys.setOp, Sys.endOp]
  opened := h.opened
  drvdata := h.drvdata
  timer := h.timer

variable [DecidableEq F]

/-- A step of a client or a timer leaves the driver data of the platform devices alone. -/
theorem pdata_of_use (h : s.use u = some t) : t.mem.pdata = s.mem.pdata := by
  cases u with
  | opens f =>
    obtain ⟨-, ⟨⟩⟩ := Option.ite_none_right_eq_some.1 h
    exact write_pdata
  | release f =>
    obtain ⟨-, h⟩ := Option.ite_none_right_eq_some.1 h
    split at h
    · cases h
      rfl
    · obtain ⟨timer, -, ⟨⟩⟩ := Option.map_eq_some_iff.1 h
      exact write_pdata
  | call p f op =>
    obtain ⟨-, ⟨⟩⟩ := Option.ite_none_right_eq_some.1 h
    rfl
  | pass p | signal p | copy p | returns p =>
    obtain ⟨i, -, h⟩ := Option.bind_eq_some_iff.1 h
    obtain ⟨-, ⟨⟩⟩ := Option.ite_none_right_eq_some.1 h
    rfl
  | clear p =>
    obtain ⟨i, -, h⟩ := Option.bind_eq_some_iff.1 h
    obtain ⟨-, ⟨⟩⟩ := Option.ite_none_right_eq_some.1 h
    exact write_pdata
  | expire o =>
    obtain ⟨timer, -, ⟨⟩⟩ := Option.map_eq_some_iff.1 h
    exact write_pdata
  | callback o =>
    obtain ⟨timer, -, ⟨⟩⟩ := Option.map_eq_some_iff.1 h
    exact write_pdata.trans write_pdata

/-- Only an open starts a timer, that of the object that the files lead to. -/
theorem active_of_use (h : s.use u = some t) (hact : (t.mem.objs k).timer.Active) :
    (s.mem.objs k).timer.Active ∨
      s.mem.registered = true ∧ s.mem.drvdata = some k ∧ t.opened ≠ ∅ := by
  cases u with
  | opens f =>
    obtain ⟨⟨hreg, -⟩, ⟨⟩⟩ := Option.ite_none_right_eq_some.1 h
    rw [write_objs] at hact
    split at hact
    · next hk => exact .inr ⟨hreg, hk, Finset.insert_ne_empty _ _⟩
    · exact .inl hact
  | release f =>
    obtain ⟨-, h⟩ := Option.ite_none_right_eq_some.1 h
    split at h
    · cases h
      exact .inl hact
    · obtain ⟨timer, htimer, ⟨⟩⟩ := Option.map_eq_some_iff.1 h
      rw [write_objs] at hact
      split at hact
      · exact absurd hact (Hrtimer.not_active_of_cancel htimer)
      · exact .inl hact
  | call p f op =>
    obtain ⟨-, ⟨⟩⟩ := Option.ite_none_right_eq_some.1 h
    exact .inl hact
  | pass p | signal p | copy p | returns p =>
    obtain ⟨i, -, h⟩ := Option.bind_eq_some_iff.1 h
    obtain ⟨-, ⟨⟩⟩ := Option.ite_none_right_eq_some.1 h
    exact .inl hact
  | clear p =>
    obtain ⟨i, -, h⟩ := Option.bind_eq_some_iff.1 h
    obtain ⟨-, ⟨⟩⟩ := Option.ite_none_right_eq_some.1 h
    exact .inl (write_active hact fun _ => rfl)
  | expire o =>
    obtain ⟨timer, htimer, ⟨⟩⟩ := Option.map_eq_some_iff.1 h
    rw [write_objs] at hact
    split at hact
    · next hk =>
      cases hk
      exact .inl (Hrtimer.active_of_expire htimer).1
    · exact .inl hact
  | callback o =>
    obtain ⟨timer, htimer, ⟨⟩⟩ := Option.map_eq_some_iff.1 h
    rw [write_objs] at hact
    split at hact
    · next hk =>
      cases hk
      exact .inl (Hrtimer.active_of_restart htimer).1
    · exact .inl (write_active hact fun _ => rfl)

/-- A release stops the timer of the object that the files lead to. -/
theorem not_active_of_release {f : F} (h : s.use (.release f) = some t)
    (hdrv : s.mem.drvdata = some k) : ¬ (t.mem.objs k).timer.Active := by
  obtain ⟨-, h⟩ := Option.ite_none_right_eq_some.1 h
  rw [hdrv] at h
  obtain ⟨timer, htimer, ⟨⟩⟩ := Option.map_eq_some_iff.1 h
  simpa [write_objs] using Hrtimer.not_active_of_cancel htimer

/-- A thread in a file operation has the object that it had, or the one that the files lead to. -/
theorem data_of_use (h : s.use u = some t) (hx : x ∈ t.ops) (hdata : x.2.data = some o) :
    (∃ y ∈ s.ops, y.2.data = some o) ∨ s.mem.drvdata = some o ∧ s.opened ≠ ∅ := by
  cases Sys.uses_of_use h with
  | opens | release | expire | callback => exact .inl ⟨x, hx, hdata⟩
  | call hf =>
    rcases Sys.mem_setOp hx with rfl | hx
    · exact .inr ⟨hdata, Finset.ne_empty_of_mem hf⟩
    · exact .inl ⟨x, hx, hdata⟩
  | pass hi | signal hi | copy hi =>
    rcases Sys.mem_setOp hx with rfl | hx
    · exact .inl ⟨_, Sys.mem_ops_of_op hi, hdata⟩
    · exact .inl ⟨x, hx, hdata⟩
  | clear | returns => exact .inl ⟨x, Sys.mem_endOp hx, hdata⟩

theorem Sys.OpsOk.use (hops : s.OpsOk) (h : s.use u = some t) : t.OpsOk := by
  cases Sys.uses_of_use h with
  | opens | release | expire | callback => exact hops
  | call | pass | signal | copy => exact hops.setOp _ _
  | clear | returns => exact hops.endOp _

theorem opened_of_use (h : s.use u = some t) (hne : t.opened ≠ ∅) :
    s.opened ≠ ∅ ∨ s.mem.registered = true := by
  cases Sys.uses_of_use h with
  | opens hreg => exact .inr hreg
  | release hf => exact .inl (Finset.ne_empty_of_mem hf)
  | call | pass | signal | copy | clear | returns | expire | callback => exact .inl hne

/-! ## What is reached -/

/-- An object that misc and `minidev` have left is not reached again. -/
theorem reached_of_use (hreg : s.mem.registered = true →
      s.mem.drvdata ≠ some o ∧ s.mem.minidev ≠ some o)
    (h : s.use u = some t) (hr : t.Reached o) : s.Reached o := by
  have hkept := (Sys.uses_of_use h).kept
  rcases hr with hact | ⟨x, hx, hdata⟩ | ⟨hdrv, hne⟩ | ⟨hmini, k, hk, hact⟩
  · exact (active_of_use h hact).elim .inl fun ⟨hr, hdrv, _⟩ => absurd hdrv (hreg hr).1
  · exact (data_of_use h hx hdata).elim (fun hop => .inr (.inl hop)) fun hfile =>
      .inr (.inr (.inl hfile))
  · rw [hkept.drvdata] at hdrv
    exact (opened_of_use h hne).elim (fun hne => .inr (.inr (.inl ⟨hdrv, hne⟩))) fun hr =>
      absurd hdrv (hreg hr).1
  · rw [hkept.minidev] at hmini
    rw [hkept.allocated] at hk
    exact (active_of_use h hact).elim (fun hact => .inr (.inr (.inr ⟨hmini, k, hk, hact⟩)))
      fun ⟨hr, _⟩ => absurd hmini (hreg hr).2

/-- What a step uses is reached. -/
theorem reached_of_usesObject (hreg : s.mem.registered = true → s.mem.drvdata ≠ some o)
    (hallocated : ∀ k, (s.mem.objs k).timer.Active → k < s.mem.allocated)
    (h : s.use u = some t) (huses : s.UsesObject o u) : s.Reached o := by
  have hop : ∀ p, s.dereferences (.pass p) = some (some o) → s.Reached o := by
    intro p hp
    obtain ⟨i, hi, hdata⟩ := Option.map_eq_some_iff.1 hp
    exact .inr (.inl ⟨_, Sys.mem_ops_of_op hi, hdata⟩)
  cases u with
  | opens f =>
    obtain ⟨⟨hr, -⟩, -⟩ := Option.ite_none_right_eq_some.1 h
    exact absurd (Option.some.inj huses) (hreg hr)
  | release f =>
    obtain ⟨⟨hf, -⟩, -⟩ := Option.ite_none_right_eq_some.1 h
    exact .inr (.inr (.inl ⟨Option.some.inj huses, Finset.ne_empty_of_mem hf⟩))
  | call p f op =>
    obtain ⟨⟨hf, -⟩, -⟩ := Option.ite_none_right_eq_some.1 h
    exact .inr (.inr (.inl ⟨Option.some.inj huses, Finset.ne_empty_of_mem hf⟩))
  | pass p | signal p | copy p | clear p | returns p => exact hop p huses
  | expire k =>
    obtain ⟨timer, htimer, -⟩ := Option.map_eq_some_iff.1 h
    cases huses
    exact .inl (Hrtimer.active_of_expire htimer).1
  | callback k =>
    obtain ⟨timer, htimer, -⟩ := Option.map_eq_some_iff.1 h
    have hact := (Hrtimer.active_of_restart htimer).1
    rcases huses with rfl | hmini
    · exact .inl hact
    · exact .inr (.inr (.inr ⟨hmini, k, hallocated k hact, hact⟩))

/-- A step of a client or a timer keeps it so. -/
theorem Sys.Closing.use (hs : s.Closing) (h : s.use u = some t) : t.Closing := by
  have huses := Sys.uses_of_use h
  constructor
  · intro k hact
    have hdrv : s.mem.drvdata = some k :=
      (active_of_use h hact).elim (fun hact => (hs.timer k hact).1) fun hopens => hopens.2.1
    refine ⟨huses.kept.drvdata.trans hdrv, ?_⟩
    rcases active_of_use h hact with hact' | ⟨-, -, hne⟩
    · have hne := (hs.timer k hact').2
      cases huses with
      | opens => exact Finset.insert_ne_empty _ _
      | release => exact absurd hact (not_active_of_release h hdrv)
      | call | pass | signal | copy | clear | returns | expire | callback => exact hne
    · exact hne
  · intro x hx
    cases huses with
    | opens => exact Finset.mem_insert_of_mem (hs.file x hx)
    | release _ hfile => exact Finset.mem_erase.2 ⟨hfile x hx, hs.file x hx⟩
    | call hf =>
      rcases Sys.mem_setOp hx with rfl | hx
      · exact hf
      · exact hs.file x hx
    | pass hi | signal hi | copy hi =>
      rcases Sys.mem_setOp hx with rfl | hx
      · have hfile := hs.file _ (Sys.mem_ops_of_op hi)
        exact hfile
      · exact hs.file x hx
    | clear | returns => exact hs.file x (Sys.mem_endOp hx)
    | expire | callback => exact hs.file x hx

/-! ## What is reached can be used -/

theorem exec_copied (hi : s.op p = some i) (hpc : i.pc = .copied) :
    ∃ t, exec Sys.use s [.clear p] = some t ∧ OpEnded p s t := by
  refine ⟨({ s with
    mem := s.mem.write i.data fun x => { x with dev := x.dev.clearPress } } : Sys D F T).endOp p,
    ?_, rfl, rfl, write_drvdata, fun k => ?_⟩
  · simp [Sys.use, hi, hpc]
  · show ((s.mem.write i.data _).objs k).timer = (s.mem.objs k).timer
    rw [write_objs]
    split <;> rfl

theorem exec_passed (hi : s.op p = some i) (hpc : i.pc = .passed) :
    ∃ t, exec Sys.use s [.copy p, .clear p] = some t ∧ OpEnded p s t := by
  have hcopy : s.use (.copy p) = some (s.setOp p { i with pc := .copied }) := by
    simp [Sys.use, hi, hpc]
  obtain ⟨t, ht, hended⟩ :=
    exec_copied (s := s.setOp p { i with pc := .copied }) op_setOp_self rfl
  refine ⟨t, ?_, hended.of_setOp⟩
  rw [exec_cons, hcopy]
  exact ht

/-- A thread in a file operation can go on to its end. -/
theorem exec_op (hi : s.op p = some i) :
    ∃ more t, exec Sys.use s more = some t ∧ OpEnded p s t := by
  cases hop : i.op with
  | poll =>
    exact ⟨[.returns p], _, by simp [Sys.use, hi, hop], rfl, rfl, rfl, fun _ => rfl⟩
  | read => cases hpc : i.pc with
    | waiting =>
      have hsignal : s.use (.signal p) = some (s.setOp p { i with pc := .passed }) := by
        simp [Sys.use, hi, hop, hpc]
      obtain ⟨t, ht, hended⟩ :=
        exec_passed (s := s.setOp p { i with pc := .passed }) op_setOp_self rfl
      refine ⟨.signal p :: [.copy p, .clear p], t, ?_, hended.of_setOp⟩
      rw [exec_cons, hsignal]
      exact ht
    | passed => exact ⟨_, exec_passed hi hpc⟩
    | copied => exact ⟨_, exec_copied hi hpc⟩

/-- All threads can go on to the ends of their file operations. -/
theorem exec_ops (s : Sys D F T) : ∃ more t, exec Sys.use s more = some t ∧ t.ops = [] ∧
    t.opened = s.opened ∧ t.mem.drvdata = s.mem.drvdata ∧
    ∀ k, (t.mem.objs k).timer = (s.mem.objs k).timer := by
  induction hn : s.ops.length using Nat.strong_induction_on generalizing s with
  | _ n ih =>
    cases hops : s.ops with
    | nil => exact ⟨[], s, rfl, hops, rfl, rfl, fun _ => rfl⟩
    | cons x rest =>
      have hi : s.op x.1 = some x.2 := by simp [Sys.op, hops]
      obtain ⟨first, u, hu, hended⟩ := exec_op hi
      have hlt : u.ops.length < n := by
        rw [← hn, hended.ops, Sys.endOp, hops]
        exact List.length_filter_lt_length_iff_exists.2 ⟨x, List.mem_cons_self, by simp⟩
      obtain ⟨more, t, ht, hnil, hopened, hdrv, htimer⟩ := ih _ hlt u rfl
      refine ⟨first ++ more, t, ?_, hnil, hopened.trans hended.opened, hdrv.trans hended.drvdata,
        fun k => (htimer k).trans (hended.timer k)⟩
      exact exec_join hu ht

/-- An active timer can expire, or its callback is running. -/
theorem use_of_active (h : (s.mem.objs k).timer.Active) :
    (s.mem.objs k).timer.running = true ∧ (∃ t, s.use (.callback k) = some t) ∨
      ∃ t, s.use (.expire k) = some t ∧ (t.mem.objs k).timer.running = true ∧
        t.mem.minidev = s.mem.minidev := by
  by_cases hrunning : (s.mem.objs k).timer.running = true
  · exact .inl ⟨hrunning, _, by simp [Sys.use, Hrtimer.restart, hrunning]; rfl⟩
  · have harmed : (s.mem.objs k).timer.armed = true := h.resolve_right hrunning
    refine .inr ⟨_, by simp [Sys.use, Hrtimer.expire, harmed, hrunning]; rfl, ?_, write_minidev⟩
    simp [write_objs]

/-- A thread in a file operation uses its object next. -/
theorem usesObject_of_op (hi : s.op p = some i) (hdata : i.data = some o) :
    ∃ u t, s.use u = some t ∧ s.UsesObject o u := by
  have huses : (s.op p).map (·.data) = some (some o) := by rw [hi, ← hdata]; rfl
  cases hop : i.op with
  | poll => exact ⟨.returns p, _, by simp [Sys.use, hi, hop]; rfl, huses⟩
  | read => cases hpc : i.pc with
    | waiting => exact ⟨.signal p, _, by simp [Sys.use, hi, hop, hpc]; rfl, huses⟩
    | passed => exact ⟨.copy p, _, by simp [Sys.use, hi, hpc]; rfl, huses⟩
    | copied => exact ⟨.clear p, _, by simp [Sys.use, hi, hpc]; rfl, huses⟩

/-- What is reached is used by some continuation. -/
theorem use_of_reached (hops : s.OpsOk) (h : s.Reached o) : ∃ more u t v,
    exec Sys.use s more = some t ∧ t.use u = some v ∧ t.UsesObject o u := by
  have hactive : (s.mem.objs o).timer.Active → ∃ more u t v,
      exec Sys.use s more = some t ∧ t.use u = some v ∧ t.UsesObject o u := by
    intro hact
    rcases use_of_active hact with ⟨-, t, ht⟩ | ⟨t, ht, -⟩
    · exact ⟨[], .callback o, s, t, rfl, ht, .inl rfl⟩
    · exact ⟨[], .expire o, s, t, rfl, ht, rfl⟩
  rcases h with hact | ⟨⟨p, i⟩, hx, hdata⟩ | ⟨hdrv, hne⟩ | ⟨hmini, k, -, hact⟩
  · exact hactive hact
  · obtain ⟨u, t, ht, huses⟩ := usesObject_of_op (hops _ hx) hdata
    exact ⟨[], u, s, t, rfl, ht, huses⟩
  · by_cases hact : (s.mem.objs o).timer.Active
    · exact hactive hact
    · -- when all threads have come to the ends of their operations, a file can be released
      obtain ⟨f, hf⟩ := Finset.nonempty_iff_ne_empty.2 hne
      obtain ⟨more, t, ht, hnil, hopened, hdrv', htimer⟩ := exec_ops s
      have hdrvt : t.mem.drvdata = some o := hdrv'.trans hdrv
      have hrunning : (t.mem.objs o).timer.running = false := by
        rw [htimer]
        exact Bool.eq_false_iff.2 fun hrunning => hact (.inr hrunning)
      have hrelease : (t.use (.release f)).isSome := by
        simp [Sys.use, hopened, hf, hnil, hdrvt, Hrtimer.cancel, hrunning]
      obtain ⟨v, hv⟩ := Option.isSome_iff_exists.1 hrelease
      exact ⟨more, .release f, t, v, ht, hv, congrArg some hdrvt⟩
  · rcases use_of_active hact with ⟨-, t, ht⟩ | ⟨t, ht, hrunning, hmini'⟩
    · exact ⟨[], .callback k, s, t, rfl, ht, .inr hmini⟩
    · have hcallback : (t.use (.callback k)).isSome := by
        simp [Sys.use, Hrtimer.restart, hrunning]
      obtain ⟨v, hv⟩ := Option.isSome_iff_exists.1 hcallback
      refine ⟨[.expire k], .callback k, t, v, ?_, hv, .inr (hmini'.trans hmini)⟩
      rw [exec_cons, ht]
      rfl

end Starrysky.Miniature
