import Starrysky.Msgqueue.Buffer

/-!
# The string that the thread prints

`strncpy(msg.buffer, argv[1], BUFFER)` fills 255 bytes of the 256 and writes no NUL behind an
argument that is as long as that. No statement sets the last byte of the buffer, which is there for
the NUL, so that such an argument is printed as it is only if the byte happens to be 0
(`printed_arg_iff`); otherwise `printf` runs on into whatever lies behind the text. Alone on its
queue the thread receives what its own `main` has sent (`received_own`).
-/

namespace Starrysky.Msgqueue

open MessageQueue UserCopy UserMsg Transition

variable {cap : Option ℕ} {f : Frames} {arg : CString} {s t : Process} {c : Stmt} {x : Message}
  {mem₀ : Memory} {p : ℕ} {q₀ : List Message} {out : Option (List UInt8)}

/-- The buffer that is sent: what `strncpy` has stored, and the byte behind it. -/
theorem take_payload : (payload p arg mem₀).take (BUFFER + 1) =
    arg.strncpy BUFFER ++ [mem₀ (p + 8 + BUFFER)] := by
  have hcopy : (arg.strncpy BUFFER).length = BUFFER := CString.strncpy_length arg
  rw [payload, List.take_append, hcopy, List.take_of_length_le (by omega), Nat.add_sub_cancel_left,
    take_load]
  rfl

/-- The thread that has printed has printed what it received. -/
theorem ProcessOk.printed (ok : ProcessOk f arg mem₀ s) (hprinted : s.printed = some out) :
    s.thr ∉ [.absent, .msgrcv, .printf] ∧ Printed s.received s.printed := by
  have hthr := ok.thr
  cases hpc : s.thr with
  | absent | msgrcv => simp [hpc, ThrInside, hprinted] at hthr
  | printf => simp [hpc, ThrInside, hprinted] at hthr
  | mtype | exit => exact ⟨by simp, by simpa [hpc, ThrInside] using hthr⟩
  | msgsnd =>
    rw [hpc] at hthr
    exact ⟨by simp, hthr.1⟩

/-- What is printed of the message that `main` has sent. -/
theorem ProcessOk.printed_eq (ok : ProcessOk f arg mem₀ s) (hsent : s.sent = some x)
    (hreceived : s.received = some x) (hprinted : s.printed = some out) :
    out = if arg.bytes.length < BUFFER ∨ mem₀ (f.main + 8 + BUFFER) = 0 then
      some (arg.bytes.take BUFFER) else none := by
  obtain ⟨-, out', hout, hx⟩ := ok.printed hprinted
  obtain rfl : out = out' := Option.some.inj (hprinted.symm.trans hout)
  obtain rfl := ok.sent_eq hsent
  have hlong : BUFFER < (payload f.main arg mem₀).length := by simp [BUFFER, sizeofMsgtype]
  rw [hx _ hreceived (.inl hlong), message_text, take_payload, CString.untilNul_strncpy]

/-! ## Alone on the queue -/

/-- The only message of type 1 that the queue ever holds is the one of `main`. -/
structure Alone (s : Process) : Prop where
  waiting : s.received = none → ofType 1 s.queue = s.sent.toList
  own : ∀ x ∈ s.received, s.sent = some x
  received : s.thr ∉ [.absent, .msgrcv] → s.received ≠ none

theorem sent_eq_of_toList {o : Option Message} {q : List Message} (h : o.toList = x :: q) :
    o = some x := by
  cases o with
  | none => cases h
  | some y => cases h; rfl

/-- A statement leaves no message of type 1 in the queue but the one of `main`. -/
theorem Alone.step (alone : Alone s) (ok : ProcessOk f arg mem₀ s) (h : StmtSteps cap f arg s c t) :
    Alone t := by
  obtain ⟨hwaiting, hown, hreceived⟩ := alone
  cases h with
  | create hpc => exact ⟨hwaiting, hown, by simp⟩
  | mainMtype | strncpy | join => exact ⟨hwaiting, hown, hreceived⟩
  | mainSend hpc hq =>
    have hmain := ok.main
    rw [hpc] at hmain
    obtain ⟨hsend, hsent⟩ := hmain
    obtain ⟨-, rfl⟩ := msgsnd_eq_some.1 hq
    refine ⟨fun hnone => ?_, fun y hy => ?_, hreceived⟩
    · have htype : ofType 1 (s.queue ++ [sendMsg s.mem f.main]) =
          ofType 1 s.queue ++ [sendMsg s.mem f.main] := ofType_concat_self (by rw [hsend]; rfl)
      rw [htype, hwaiting hnone, hsent]
      rfl
    · rw [hown y hy] at hsent
      cases hsent
  | receive hpc hq hstores =>
    obtain ⟨-, htype, -⟩ := ofType_msgrcv hq
    have hthr := ok.thr
    rw [hpc] at hthr
    rw [hwaiting hthr.1] at htype
    refine ⟨by simp, ?_, by simp⟩
    rintro y ⟨⟩
    exact sent_eq_of_toList htype
  | refused hpc hq hstores =>
    -- the message is the one of `main`, which is not too long
    obtain ⟨-, htype, -⟩ := ofType_msgrcv hq
    have hthr := ok.thr
    rw [hpc] at hthr
    rw [hwaiting hthr.1] at htype
    obtain rfl := ok.sent_eq (sent_eq_of_toList htype)
    simp [recvMsg, UserMsg.received] at hstores
  | printf hpc => exact ⟨hwaiting, hown, fun _ => hreceived (by simp [hpc])⟩
  | thrMtype hpc => exact ⟨hwaiting, hown, fun _ => hreceived (by simp [hpc])⟩
  | reply hpc hq =>
    have hsome := hreceived (by simp [hpc])
    exact ⟨fun hnone => absurd hnone hsome, hown, fun _ => hsome⟩

/-- **Alone on its queue the thread receives what its `main` has sent.** In every run of the process
on a queue that holds no message of type 1 at first and that nobody else uses, whatever the queue's
capacity. -/
theorem received_own {run : List Stmt} (hq : ∀ y ∈ q₀, y.mtype ≠ 1)
    (h : exec (stmtStep cap f arg) (.init mem₀ q₀) run = some s) (hprinted : s.printed = some out) :
    ∃ x, s.sent = some x ∧ s.received = some x := by
  have hinit : Alone (.init mem₀ q₀) := by
    refine ⟨fun _ => ?_, by simp [Process.init], by simp [Process.init]⟩
    simpa [ofType, Process.init] using hq
  have hrun : ProcessOk f arg mem₀ s ∧ Alone s := by
    refine exec_induction (P := fun _ s => ProcessOk f arg mem₀ s ∧ Alone s) ⟨.init, hinit⟩ ?_ h
    rintro _ s c t - ⟨ok, alone⟩ hstep
    have hsteps := stmtSteps_of_stmtStep hstep
    exact ⟨ok.step hsteps, alone.step ok hsteps⟩
  obtain ⟨ok, alone⟩ := hrun
  obtain ⟨hthr, -⟩ := ok.printed hprinted
  obtain ⟨x, hx⟩ := Option.ne_none_iff_exists'.1 (alone.received (by simp at hthr ⊢; tauto))
  exact ⟨x, alone.own x hx, hx⟩

/-! ## The string -/

/-- **When the argument is printed.** In every run of the process, for every argument, every content
of memory and every queue, whatever other processes do to the queue: if the thread has received and
printed what its `main` has sent, it has found a NUL in its `msg.buffer` and before it the first 255
bytes of the argument, if and only if the argument is shorter than that or the last byte of the
`msg.buffer` of `main` was 0 at first. -/
theorem printed_arg_iff (cap : Option ℕ) (f : Frames) (arg : CString) (mem₀ : Memory)
    (q₀ : List Message) (run : List (Stmt ⊕ List Message)) (s : Process) (x : Message)
    (out : Option (List UInt8)) (h : exec (processStep cap f arg) (.init mem₀ q₀) run = some s)
    (hsent : s.sent = some x) (hreceived : s.received = some x) (hprinted : s.printed = some out) :
    out = some (arg.bytes.take BUFFER) ↔
      arg.bytes.length < BUFFER ∨ mem₀ (f.main + 8 + BUFFER) = 0 := by
  have hout := (reachable_processOk h).printed_eq hsent hreceived hprinted
  by_cases hcond : arg.bytes.length < BUFFER ∨ mem₀ (f.main + 8 + BUFFER) = 0
  · simp [hout, hcond]
  · simp [hout, hcond]

/-- The statements up to the `printf` of the thread. -/
def firstPrintf : List (Stmt ⊕ List Message) :=
  [.inl .create, .inl .mainMtype, .inl .strncpy, .inl .mainSend, .inl .receive, .inl .printf]

/-- On an empty queue the thread receives and prints. -/
theorem exec_firstPrintf (f : Frames) (arg : CString) (mem₀ : Memory) : ∃ s x out,
    exec (processStep none f arg) (.init mem₀ []) firstPrintf = some s ∧ s.sent = some x ∧
      s.received = some x ∧ s.printed = some out := by
  have hsend : sendMsg (apply (apply mem₀ (storesAt f.main (longBytes 1)))
      (storesAt (f.main + 8) (arg.strncpy BUFFER))) f.main =
      message 1 (payload f.main arg mem₀) := by
    refine sendMsg_strncpy ?_ (loadLong_apply 1)
    exact load_apply_storesAt_of_disjoint (.inr (by simp [Nat.add_assoc]))
  have hsnd : msgsnd none [] (message 1 (payload f.main arg mem₀)) =
      some [message 1 (payload f.main arg mem₀)] := by simp [msgsnd]
  have hrcv : msgrcv 1 [message 1 (payload f.main arg mem₀)] =
      some (message 1 (payload f.main arg mem₀), []) := msgrcv_concat (q := []) (by simp) rfl
  simp [firstPrintf, processStep, stmtStep, Process.init, hsend, hsnd, hrcv, recvMsg,
    UserMsg.received]

/-- `./msqu hi` is answered by the string `hi`, whatever the stack holds. -/
theorem printed_arg_hi :
    ∃ s, exec (processStep none ⟨0, 1024, .inl (by decide)⟩ ⟨[104, 105], by decide⟩)
      (.init (fun _ => 0xaa) []) firstPrintf = some s ∧ s.printed = some (some [104, 105]) := by
  obtain ⟨s, x, out, hs, hsent, hreceived, hprinted⟩ :=
    exec_firstPrintf ⟨0, 1024, .inl (by decide)⟩ ⟨[104, 105], by decide⟩ fun _ => 0xaa
  have hout :=
    (printed_arg_iff _ _ _ _ _ _ s x out hs hsent hreceived hprinted).2 (.inl (by decide))
  exact ⟨s, hs, hprinted.trans (congrArg some hout)⟩

/-- An argument of 255 bytes is not, on a stack that is not 0. -/
theorem not_printed_arg_long :
    ¬ ∀ (cap : Option ℕ) (f : Frames) (arg : CString) (mem₀ : Memory) (q₀ : List Message)
      (run : List (Stmt ⊕ List Message)) (s : Process) (x : Message) (out : Option (List UInt8)),
      exec (processStep cap f arg) (.init mem₀ q₀) run = some s → s.sent = some x →
        s.received = some x → s.printed = some out → out = some (arg.bytes.take BUFFER) := by
  intro hall
  let arg : CString :=
    ⟨List.replicate BUFFER 97, fun h => absurd (List.eq_of_mem_replicate h) (by decide)⟩
  obtain ⟨s, x, out, hs, hsent, hreceived, hprinted⟩ :=
    exec_firstPrintf ⟨0, 1024, .inl (by decide)⟩ arg fun _ => 0xaa
  have hout := hall _ _ _ _ _ _ s x out hs hsent hreceived hprinted
  have hlength : arg.bytes.length = BUFFER := List.length_replicate
  rw [(reachable_processOk hs).printed_eq hsent hreceived hprinted, if_neg] at hout
  · cases hout
  · rw [hlength]
    decide

end Starrysky.Msgqueue
