import Starrysky.Msgqueue.Buffer

/-!
# What the calls touch

The size argument of `msgsnd` and `msgrcv` counts the text alone, and the program passes
`sizeof(struct msgtype)`, which counts the type too. So both `msgsnd` read the eight bytes behind
`msg`, and `msgrcv` writes behind `msg` when the message is longer than `msg.buffer`, as those of
the program are (`calls_leave_msg`). What lay behind the `msg` of `main` thus ends up behind the
`msg` of the thread (`sent_behind`, `received_behind`).
-/

namespace Starrysky.Msgqueue

open MessageQueue UserCopy UserMsg Transition

/-- The address is one of the bytes of the `msg` at `p`. -/
def InMsg (p y : ℕ) : Prop := p ≤ y ∧ y < p + sizeofMsgtype

/-- The `msgrcv` of the message `x` writes no byte outside of the `msg` at `p`. -/
def WritesInMsg (p : ℕ) (x : Message) : Prop :=
  ∀ stores ∈ recvMsg p x, WithinBuffer p sizeofMsgtype stores

/-- The `msgsnd` of the `msg` at `p` reads no byte outside of it. -/
def ReadsInMsg (p : ℕ) (m : Memory) : Prop := ∀ y, Reads (sendMsg · p) m y → InMsg p y

/-- What reaches the queue is determined by the `msg` at `p` alone. -/
def Determined (p : ℕ) (m : Memory) : Prop :=
  ∀ m', (∀ y, InMsg p y → m' y = m y) → sendMsg m' p = sendMsg m p

variable {cap : Option ℕ} {f : Frames} {arg : CString} {s : Process} {x : Message}
  {mem₀ m : Memory} {p y : ℕ} {q₀ : List Message}

/-- `msgsnd` reads `msg` and the eight bytes behind it. -/
theorem reads_sendMsg_iff : Reads (sendMsg · p) m y ↔ p ≤ y ∧ y < p + (sizeofMsgtype + 8) := by
  have hreads : Reads (sendMsg · p) m y ↔ p ≤ y ∧ y < p + 8 + sizeofMsgtype := reads_sent_iff
  rw [hreads, Nat.add_assoc, Nat.add_comm 8]

theorem not_readsInMsg : ¬ ReadsInMsg p m := by
  intro h
  have hread : Reads (sendMsg · p) m (p + sizeofMsgtype) := reads_sendMsg_iff.2 ⟨by omega, by omega⟩
  exact absurd (h _ hread).2 (lt_irrefl _)

/-- A byte behind `msg` reaches the queue. -/
theorem not_determined : ¬ Determined p m := by
  intro h
  obtain ⟨b, hb⟩ : Reads (sendMsg · p) m (p + sizeofMsgtype) :=
    reads_sendMsg_iff.2 ⟨by omega, by omega⟩
  refine hb (h _ fun y hy => Function.update_of_ne ?_ ..)
  exact hy.2.ne

/-- `msgrcv` stays in `msg` exactly if the text fits into `msg.buffer`, or it refuses the message.
-/
theorem writesInMsg_iff :
    WritesInMsg p x ↔ x.text.length ≤ BUFFER + 1 ∨ sizeofMsgtype < x.text.length := by
  rw [WritesInMsg, recvMsg, received_writes_iff]
  simp only [sizeofMsgtype, BUFFER]
  omega

/-! ## What lies behind `msg` -/

/-- What `main` sends ends with the eight bytes that lay behind its `msg` when the program was
started. -/
theorem sent_behind {run : List (Stmt ⊕ List Message)}
    (h : exec (processStep cap f arg) (.init mem₀ q₀) run = some s) (hsent : s.sent = some x) :
    x.text.drop (BUFFER + 1) = load mem₀ (f.main + sizeofMsgtype) 8 := by
  obtain rfl := (reachable_processOk h).sent_eq hsent
  have hlength : (arg.strncpy BUFFER ++ load mem₀ (f.main + 8 + BUFFER) 1).length = BUFFER + 1 := by
    simp
  have hload := load_add mem₀ (f.main + 8 + BUFFER) 1 8
  rw [message_text, payload, hload, ← List.append_assoc, List.drop_left' hlength]
  rfl

/-- A message of the program is received with its last eight bytes behind the `msg` of the thread.
-/
theorem received_behind {run : List (Stmt ⊕ List Message)}
    (h : exec (processStep cap f arg) (.init mem₀ q₀) run = some s) (hpc : s.thr = .printf)
    (hreceived : s.received = some x) (hlength : x.text.length = sizeofMsgtype) :
    load s.mem (f.thr + sizeofMsgtype) 8 = x.text.drop (BUFFER + 1) := by
  have hthr := (reachable_processOk h).thr
  rw [hpc] at hthr
  have hload := hthr.1 x hreceived
  rw [hlength] at hload
  have hsplit := load_add s.mem (f.thr + 8) (BUFFER + 1) 8
  rw [← hload]
  refine Eq.trans ?_ (congrArg (List.drop (BUFFER + 1)) hsplit).symm
  rw [List.drop_left' (by simp)]
  rfl

/-- **The calls leave `msg`.** Wherever the two `msg` lie, for every message that is received and
every content of memory: `msgrcv` writes no byte outside of the thread's `msg` exactly if the
message has at most 256 bytes or is refused, which takes more than 264; and the `msgsnd` of `main`
and that of `thr_test` both read bytes outside of `msg`, so that what reaches the queue is not
determined by `msg` alone. -/
theorem calls_leave_msg (f : Frames) (x : Message) (m : Memory) :
    (WritesInMsg f.thr x ↔ x.text.length ≤ 256 ∨ 264 < x.text.length) ∧
      ¬ ReadsInMsg f.main m ∧ ¬ ReadsInMsg f.thr m ∧
      ¬ Determined f.main m ∧ ¬ Determined f.thr m :=
  ⟨writesInMsg_iff, not_readsInMsg, not_readsInMsg, not_determined, not_determined⟩

/-- A message of the program itself is written beyond `msg`. -/
theorem not_in_msg_own :
    ¬ ∀ (f : Frames) (x : Message) (m : Memory), x.mtype = 1 →
      WritesInMsg f.thr x ∧ ReadsInMsg f.main m ∧ ReadsInMsg f.thr m ∧
        Determined f.main m ∧ Determined f.thr m := by
  intro hall
  let f : Frames := ⟨0, 1024, .inl (by decide)⟩
  obtain ⟨hwrites, -⟩ := hall f (message 1 (List.replicate sizeofMsgtype 0)) (fun _ => 0) rfl
  have hlength := writesInMsg_iff.1 hwrites
  rw [message_text, List.length_replicate] at hlength
  exact absurd hlength (by decide)

end Starrysky.Msgqueue
