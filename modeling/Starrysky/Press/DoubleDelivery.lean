import Starrysky.Press.Flag

/-!
# Events delivered twice

One process reads while the callback runs on another CPU, statement by statement. The callback
stores the new value before it sets the flag, so a read that passed on the previous event can copy
the new value, and clear the flag, before the flag announces that value: the next read then delivers
it once more. `seen` is the history that the drivers do not keep: which callback stored the value
that each completed read copied. `no_event_twice` says that a read which completes in the gap
between the two statements with the new value already copied is the only cause, and
`early_read_twice` that it is always one. In `interrupt-2-poll` the two statements are adjacent, in
the other two drivers the timer is forwarded in between.
-/

namespace Starrysky.Press

open Transition

/-- The callbacks that have stored a value, counted; the number of the callback whose value the
latest copy took, 0 for none; and these numbers for the completed reads, the latest first. -/
structure Seen where
  toggles : ℕ
  copied : ℕ
  delivered : List ℕ

def Seen.after (g : Seen) : Act Unit → Seen
  | .stmt .toggleValue => { g with toggles := g.toggles + 1 }
  | .read _ .copy => { g with copied := g.toggles }
  | .read _ .clear => { g with delivered := g.copied :: g.delivered }
  | _ => g

/-- The history of a run. -/
def seen (run : List (Act Unit)) : Seen := run.foldl Seen.after ⟨0, 0, []⟩

/-- Each completed read has copied the value of a later callback than the read before it. -/
def NoEventTwice (run : List (Act Unit)) : Prop := (seen run).delivered.Pairwise (· > ·)

/-- The callback has stored the new value and has yet to set the flag. -/
def Announcing (cb : List Stmt) : Prop := .setPress ∈ cb ∧ .toggleValue ∉ cb

/-- A read that clears the flag while the callback has yet to set it has not copied the new value.
-/
def NoEarlyRead (run : List (Act Unit)) (s : State Unit) (a : Act Unit) : Prop :=
  a = .read () .clear → Announcing s.cb → .stmt .toggleValue ∈ since (.read () .copy) run

instance (run : List (Act Unit)) : Decidable (NoEventTwice run) :=
  inferInstanceAs (Decidable (List.Pairwise _ _))

instance (run : List (Act Unit)) (s : State Unit) (a : Act Unit) :
    Decidable (NoEarlyRead run s a) :=
  inferInstanceAs (Decidable (_ → _ ∧ _ → _))

variable {d : Driver} {run : List (Act Unit)} {s t : State Unit} {a : Act Unit}

@[simp] theorem seen_concat : seen (run ++ [a]) = (seen run).after a := by
  simp [seen]

theorem toggleValue_mem : .toggleValue ∈ hrtimerHanderInterrupt d := by
  cases d <;> decide

/-- A statement other than the toggle leaves the history as it is. -/
theorem Seen.after_stmt {g : Seen} {c : Stmt} (h : c ≠ .toggleValue) : g.after (.stmt c) = g := by
  cases c with
  | toggleValue => exact absurd rfl h
  | mdelay | setKt | forwardNow | setPress | wakeUp | restart => rfl

theorem seen_stmts {cs : List Stmt} (h : .toggleValue ∉ cs) :
    seen (run ++ cs.map .stmt) = seen run := by
  induction cs generalizing run with
  | nil => simp
  | cons c cs ih =>
    obtain ⟨hc, hcs⟩ := List.ne_and_not_mem_of_not_mem_cons h
    rw [List.map_cons, ← List.singleton_append, ← List.append_assoc, ih hcs, seen_concat,
      Seen.after_stmt (Ne.symm hc)]

/-- A copy takes the latest value that is stored, and the callback has stored a later one since if
and only if it has toggled since. -/
theorem toggled_since_copy (h : exec (step d) (State.init d) run = some s) :
    (seen run).copied ≤ (seen run).toggles ∧ (s.pc () = .copied →
      (.stmt .toggleValue ∈ since (.read () .copy) run ↔
        (seen run).copied < (seen run).toggles)) := by
  refine exec_induction (P := fun run s => (seen run).copied ≤ (seen run).toggles ∧
    (s.pc () = .copied → (.stmt .toggleValue ∈ since (.read () .copy) run ↔
      (seen run).copied < (seen run).toggles))) ?_ ?_ h
  · exact ⟨le_rfl, fun hpc => by cases hpc⟩
  · rintro run s a t - ⟨hle, hiff⟩ hstep
    rw [seen_concat]
    cases steps_of_step hstep with
    | expire =>
      refine ⟨hle, fun hpc => ?_⟩
      rw [since_concat_of_ne (by simp)]
      simpa [Seen.after] using hiff hpc
    | @stmt c rest hcb =>
      rw [since_concat_of_ne (by simp)]
      by_cases hc : c = .toggleValue
      · subst hc
        exact ⟨Nat.le_succ_of_le hle, fun _ => by simp [Seen.after, Nat.lt_succ_of_le hle]⟩
      · rw [Seen.after_stmt hc]
        refine ⟨hle, fun hpc => ?_⟩
        simpa [Ne.symm hc] using hiff hpc
    | read hr => cases hr with
      | pass | clear => exact ⟨hle, fun hpc => by simp at hpc⟩
      | copy => simp [Seen.after]

/-! ## Reads that are not early -/

/-- What holds under the condition: the value of the latest callback has not been delivered as long
as it is unannounced, announced, or about to be copied, and what has been copied has not. -/
structure DeliveryOk (g : Seen) (s : State Unit) : Prop where
  pairwise : g.delivered.Pairwise (· > ·)
  le : ∀ n ∈ g.delivered, n ≤ g.toggles
  announcing : Announcing s.cb → ∀ n ∈ g.delivered, n < g.toggles
  pressed : s.dev.Pressed → ∀ n ∈ g.delivered, n < g.toggles
  passed : s.pc () = .passed → ∀ n ∈ g.delivered, n < g.toggles
  copied : s.pc () = .copied → ∀ n ∈ g.delivered, n < g.copied

theorem DeliveryOk.init : DeliveryOk (seen []) (State.init d) where
  pairwise := .nil
  le := by simp [seen]
  announcing := by simp [seen]
  pressed := by simp [seen]
  passed := by simp [seen]
  copied := by simp [seen]

/-- The callback stores a new value, which is undelivered. -/
theorem DeliveryOk.toggle {g : Seen} {rest : List Stmt} (ok : DeliveryOk g s) :
    DeliveryOk (g.after (.stmt .toggleValue))
      { s with dev := Stmt.toggleValue.exec s.dev, cb := rest } := by
  have hlt : ∀ n ∈ g.delivered, n < g.toggles + 1 := fun n hn => Nat.lt_succ_of_le (ok.le n hn)
  exact {
    pairwise := ok.pairwise
    le := fun n hn => Nat.le_of_lt (hlt n hn)
    announcing := fun _ => hlt
    pressed := fun _ => hlt
    passed := fun _ => hlt
    copied := ok.copied }

/-- Another statement of the callback delivers nothing, and it sets the flag only when the new value
is unannounced. -/
theorem DeliveryOk.stmt {g : Seen} {c : Stmt} {rest : List Stmt} (ok : DeliveryOk g s)
    (hcb : s.cb = c :: rest) (hsuf : s.cb <:+ hrtimerHanderInterrupt d) (hc : c ≠ .toggleValue) :
    DeliveryOk g { s with dev := c.exec s.dev, cb := rest } where
  pairwise := ok.pairwise
  le := ok.le
  passed := ok.passed
  copied := ok.copied
  announcing := by
    rintro ⟨hset, htoggle⟩
    refine ok.announcing ?_
    rw [hcb]
    exact ⟨List.mem_cons_of_mem _ hset, List.not_mem_cons_of_ne_of_not_mem (Ne.symm hc) htoggle⟩
  pressed := by
    intro hev
    by_cases hset : c = .setPress
    · subst hset
      obtain ⟨-, -, htoggle⟩ := after_setPress (hcb ▸ hsuf)
      exact ok.announcing (by simp [Announcing, hcb, htoggle])
    · exact ok.pressed (by simpa [Device.Pressed, exec_evPress hset] using hev)

/-- A step that is no early read delivers no value twice. -/
theorem DeliveryOk.step (hrun : exec (step d) (State.init d) run = some s)
    (ok : DeliveryOk (seen run) s) (hearly : NoEarlyRead run s a) (hstep : step d s a = some t) :
    DeliveryOk (seen (run ++ [a])) t := by
  obtain ⟨hle, hiff⟩ := toggled_since_copy hrun
  rw [seen_concat]
  cases steps_of_step hstep with
  | expire => exact { ok with announcing := fun han => absurd toggleValue_mem han.2 }
  | @stmt c rest hcb =>
    by_cases hc : c = .toggleValue
    · subst hc
      exact ok.toggle
    · rw [Seen.after_stmt hc]
      exact ok.stmt hcb (reachable_cb hrun) hc
  | read hr => cases hr with
    | pass _ hev =>
      exact { ok with
        passed := fun _ => ok.pressed hev
        copied := fun hpc => by simp at hpc }
    | copy hpc =>
      exact { ok with
        passed := fun hpc => by simp at hpc
        copied := fun _ => ok.passed hpc }
    | clear hpc =>
      exact {
        pairwise := List.pairwise_cons.2 ⟨ok.copied hpc, ok.pairwise⟩
        le := List.forall_mem_cons.2 ⟨hle, ok.le⟩
        announcing := fun han =>
          List.forall_mem_cons.2 ⟨(hiff hpc).1 (hearly rfl han), ok.announcing han⟩
        pressed := fun hev => absurd hev clearPress_not_pressed
        passed := fun hpc => by simp at hpc
        copied := fun hpc => by simp at hpc }

/-- **No event is delivered twice** in a run in which no read completes between the callback's two
statements with the new value copied: in every state it goes through, each completed read has copied
the value of a strictly later callback than the read before it. -/
theorem no_event_twice (d : Driver) (run : List (Act Unit))
    (h : Meets (step d) (State.init d) NoEarlyRead run) :
    Throughout (step d) (State.init d) (fun run _ => NoEventTwice run) run := by
  rintro pre post s rfl hs
  exact (h.left.induction (P := fun run s => DeliveryOk (seen run) s) .init
    (fun hrun ok => ok.step hrun) hs).pairwise

theorem no_event_twice_late_clear :
    Throughout (step .interrupt3Epoll) (State.init .interrupt3Epoll) (fun run _ => NoEventTwice run)
      (Whole.acts .interrupt3Epoll (.callback) ++
        [.read () .pass, .read () .copy, .expire, .stmt .toggleValue, .read () .clear]) :=
  no_event_twice _ _ (by decide +kernel)

/-- A read in progress copies the value that the callback has just stored and clears the flag; the
callback then announces that value, and the next read copies it again. -/
def earlyRun : List (Act Unit) :=
  .expire :: (hrtimerHanderInterrupt .interrupt3Epoll).map .stmt ++
    [.read () .pass, .expire, .stmt .toggleValue, .read () .copy, .read () .clear,
      .stmt (.setKt 1 0), .stmt .forwardNow, .stmt .setPress, .read () .pass, .read () .copy,
      .read () .clear]

theorem value_delivered_twice :
    ¬ Throughout (step .interrupt3Epoll) (State.init .interrupt3Epoll)
      (fun run _ => NoEventTwice run) earlyRun ∧
    ¬ Throughout (step .miniatureDriver) (State.init .miniatureDriver)
      (fun run _ => NoEventTwice run) earlyRun := by
  decide +kernel

/-! ## Early reads -/

/-- When the flag is up, a read can run from its beginning to its end. -/
theorem exec_read (hpc : s.pc () = .idle) (hev : s.dev.Pressed) :
    ∃ t, exec (step d) s [.read () .pass, .read () .copy, .read () .clear] = some t := by
  have hpass : step d s (.read () .pass) =
      some { s with pc := Function.update s.pc () .passed } := by
    simp [step, readStep, hpc, hev]
  exact ⟨_, by rw [exec_cons, hpass]; rfl⟩

theorem seen_read : seen (run ++ [.read () .pass, .read () .copy, .read () .clear]) =
    ⟨(seen run).toggles, (seen run).toggles, (seen run).toggles :: (seen run).delivered⟩ := by
  simp [seen, Seen.after]

/-- A read that completes early is always followed by a second delivery, on some schedule: the
callback sets the flag, and the next read runs before the next callback. -/
theorem early_read_twice (hrun : exec (step d) (State.init d) run = some s)
    (hpc : s.pc () = .copied) (han : Announcing s.cb)
    (hearly : .stmt .toggleValue ∉ since (.read () .copy) run) :
    ∃ more t, exec (step d) (State.init d) (run ++ .read () .clear :: more) = some t ∧
      ¬ NoEventTwice (run ++ .read () .clear :: more) := by
  obtain ⟨hle, hiff⟩ := toggled_since_copy hrun
  obtain ⟨cs, rest, hcb⟩ := List.append_of_mem han.1
  have htoggle : .toggleValue ∉ cs ++ [Stmt.setPress] := by
    have hcs : .toggleValue ∉ cs := fun h => han.2 (hcb ▸ List.mem_append_left _ h)
    simp [hcs]
  have hclear : step d s (.read () .clear) = some { s with
      dev := s.dev.clearPress, pc := Function.update s.pc () .idle } := by
    simp [step, readStep, hpc]
  have hset := exec_stmts (d := d) { s with
      dev := s.dev.clearPress, pc := Function.update s.pc () .idle }
    (hcb.trans (List.append_cons cs .setPress rest))
  obtain ⟨t, ht⟩ := exec_read (d := d) (s := { s with
      dev := (cs ++ [Stmt.setPress]).foldl (fun dev c => c.exec dev) s.dev.clearPress
      cb := rest
      pc := Function.update s.pc () .idle })
    (by simp) (by simp [Stmt.exec, Device.Pressed])
  refine ⟨(cs ++ [Stmt.setPress]).map .stmt ++ [.read () .pass, .read () .copy, .read () .clear], t,
    ?_, ?_⟩
  · rw [exec_append, hrun, Option.bind_some, exec_cons, hclear, Option.bind_some, exec_append, hset,
      Option.bind_some]
    exact ht
  · -- the second read copies what the first has copied
    have hcopied : (seen run).copied = (seen run).toggles :=
      hle.antisymm (Nat.not_lt.1 fun hlt => hearly ((hiff hpc).2 hlt))
    rw [NoEventTwice, List.append_cons, ← List.append_assoc, seen_read, seen_stmts htoggle,
      seen_concat]
    simp [Seen.after, hcopied]

end Starrysky.Press
