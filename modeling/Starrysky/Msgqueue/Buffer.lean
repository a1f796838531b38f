import Starrysky.Msgqueue.Instance
import Starrysky.Lib.CString
import Starrysky.Lib.Transition
import Starrysky.Lib.UserMsg

/-!
# The bytes of a message

`main` and `thr_test` each have a variable `msg` of type `struct msgtype` on their stack, which
nothing initialises, and hand its address to `msgsnd` and `msgrcv`. The machine runs the program
statement by statement on the memory of its process. `sizeof(struct msgtype)`, which all calls take
for the size of the text, includes the type, so that a message carries the eight bytes that lie
behind `msg`. On a queue whose messages of type 1 are of this program the machine refines
`instStep`, the argument of the instance being these 264 bytes (`process_refines`).
-/

namespace Starrysky.Msgqueue

open MessageQueue UserCopy UserMsg Transition

def BUFFER : ℕ := 255

abbrev Message := Msg (List UInt8)

/-- Where the `msg` of `main` and the `msg` of `thr_test` begin. They are on two stacks, which do
not overlap, and neither is the last object of its stack. -/
structure Frames where
  main : ℕ
  thr : ℕ
  disjoint : main + (sizeofMsgtype + 8) ≤ thr ∨ thr + (sizeofMsgtype + 8) ≤ main

/-- What `msgsnd(msgid, &msg, sizeof(struct msgtype), 0)` sends of the `msg` at `p`. -/
def sendMsg (m : Memory) (p : ℕ) : Message := sent m p sizeofMsgtype

/-- What `msgrcv(msgid, &msg, sizeof(struct msgtype), 1, 0)` stores into the `msg` at `p`. -/
def recvMsg (p : ℕ) (x : Message) : Option (List Store) := received p sizeofMsgtype x

/-- The next statement of `main`. -/
inductive MainStmt where
  | create
  | mtype
  | strncpy
  | msgsnd
  | join
  | done
  deriving DecidableEq

/-- The next statement of `thr_test`. -/
inductive ThrStmt where
  | absent
  | msgrcv
  | printf
  | mtype
  | msgsnd
  | exit
  deriving DecidableEq

/-- A process that runs the program, and the queue. `sent` is what its `main` has sent, `received`
what its thread has received, and `printed` the string that the thread has found in its
`msg.buffer`. -/
structure Process where
  mem : Memory
  queue : List Message
  main : MainStmt
  thr : ThrStmt
  sent : Option Message
  received : Option Message
  printed : Option (Option (List UInt8))

def Process.init (mem : Memory) (queue : List Message) : Process :=
  { mem, queue, main := .create, thr := .absent, sent := none, received := none, printed := none }

inductive Stmt where
  | create
  /-- `msg.mtype = 1` -/
  | mainMtype
  /-- `strncpy(msg.buffer, argv[1], BUFFER)` -/
  | strncpy
  | mainSend
  | receive
  /-- `printf("Server Receive:%s\n", msg.buffer)` -/
  | printf
  /-- `msg.mtype = 2` -/
  | thrMtype
  | reply
  | join
  deriving DecidableEq

/-- A statement of the process. When `msgrcv` refuses a message, `thr_test` goes on all the same. -/
def stmtStep (cap : Option ℕ) (f : Frames) (arg : CString) (s : Process) : Stmt → Option Process
  | .create =>
    if s.main = .create then some { s with main := .mtype, thr := .msgrcv } else none
  | .mainMtype =>
    if s.main = .mtype then
      some { s with main := .strncpy, mem := apply s.mem (storesAt f.main (longBytes 1)) }
    else none
  | .strncpy =>
    if s.main = .strncpy then
      some { s with
        main := .msgsnd, mem := apply s.mem (storesAt (f.main + 8) (arg.strncpy BUFFER)) }
    else none
  | .mainSend =>
    if s.main = .msgsnd then
      (msgsnd cap s.queue (sendMsg s.mem f.main)).map fun q =>
        { s with main := .join, queue := q, sent := some (sendMsg s.mem f.main) }
    else none
  | .receive =>
    if s.thr = .msgrcv then
      (msgrcv 1 s.queue).map fun (x, q) =>
        match recvMsg f.thr x with
        | some stores =>
          { s with thr := .printf, mem := apply s.mem stores, queue := q, received := some x }
        | none => { s with thr := .printf }
    else none
  | .printf =>
    if s.thr = .printf then
      some { s with
        thr := .mtype, printed := some (CString.untilNul (load s.mem (f.thr + 8) (BUFFER + 1))) }
    else none
  | .thrMtype =>
    if s.thr = .mtype then
      some { s with thr := .msgsnd, mem := apply s.mem (storesAt f.thr (longBytes 2)) }
    else none
  | .reply =>
    if s.thr = .msgsnd then
      (msgsnd cap s.queue (sendMsg s.mem f.thr)).map fun q => { s with thr := .exit, queue := q }
    else none
  | .join =>
    if s.main = .join ∧ s.thr = .exit then some { s with main := .done } else none

/-- A statement of the process, or other processes leave the queue `q`. -/
def processStep (cap : Option ℕ) (f : Frames) (arg : CString) (s : Process) :
    Stmt ⊕ List Message → Option Process
  | .inl c => stmtStep cap f arg s c
  | .inr q => some { s with queue := q }

/-- The statements, with what enables them. -/
inductive StmtSteps (cap : Option ℕ) (f : Frames) (arg : CString) (s : Process) :
    Stmt → Process → Prop
  | create : s.main = .create →
    StmtSteps cap f arg s .create { s with main := .mtype, thr := .msgrcv }
  | mainMtype : s.main = .mtype → StmtSteps cap f arg s .mainMtype
      { s with main := .strncpy, mem := apply s.mem (storesAt f.main (longBytes 1)) }
  | strncpy : s.main = .strncpy → StmtSteps cap f arg s .strncpy
      { s with main := .msgsnd, mem := apply s.mem (storesAt (f.main + 8) (arg.strncpy BUFFER)) }
  | mainSend {q : List Message} : s.main = .msgsnd →
    msgsnd cap s.queue (sendMsg s.mem f.main) = some q → StmtSteps cap f arg s .mainSend
      { s with main := .join, queue := q, sent := some (sendMsg s.mem f.main) }
  | receive {x : Message} {q : List Message} {stores : List Store} : s.thr = .msgrcv →
    msgrcv 1 s.queue = some (x, q) → recvMsg f.thr x = some stores →
    StmtSteps cap f arg s .receive
      { s with thr := .printf, mem := apply s.mem stores, queue := q, received := some x }
  | refused {x : Message} {q : List Message} : s.thr = .msgrcv →
    msgrcv 1 s.queue = some (x, q) → recvMsg f.thr x = none →
    StmtSteps cap f arg s .receive { s with thr := .printf }
  | printf : s.thr = .printf → StmtSteps cap f arg s .printf
      { s with
        thr := .mtype, printed := some (CString.untilNul (load s.mem (f.thr + 8) (BUFFER + 1))) }
  | thrMtype : s.thr = .mtype → StmtSteps cap f arg s .thrMtype
      { s with thr := .msgsnd, mem := apply s.mem (storesAt f.thr (longBytes 2)) }
  | reply {q : List Message} : s.thr = .msgsnd →
    msgsnd cap s.queue (sendMsg s.mem f.thr) = some q →
    StmtSteps cap f arg s .reply { s with thr := .exit, queue := q }
  | join : s.main = .join → s.thr = .exit →
    StmtSteps cap f arg s .join { s with main := .done }

variable {cap : Option ℕ} {f : Frames} {arg : CString} {s t : Process} {c : Stmt} {x : Message}
  {mem₀ mem mem' : Memory} {p : ℕ} {q₀ : List Message}

theorem stmtSteps_of_stmtStep (h : stmtStep cap f arg s c = some t) :
    StmtSteps cap f arg s c t := by
  cases c with
  | create =>
    obtain ⟨hpc, ⟨⟩⟩ := Option.ite_none_right_eq_some.1 h
    exact .create hpc
  | mainMtype =>
    obtain ⟨hpc, ⟨⟩⟩ := Option.ite_none_right_eq_some.1 h
    exact .mainMtype hpc
  | strncpy =>
    obtain ⟨hpc, ⟨⟩⟩ := Option.ite_none_right_eq_some.1 h
    exact .strncpy hpc
  | mainSend =>
    obtain ⟨hpc, h⟩ := Option.ite_none_right_eq_some.1 h
    obtain ⟨q, hq, rfl⟩ := Option.map_eq_some_iff.1 h
    exact .mainSend hpc hq
  | receive =>
    obtain ⟨hpc, h⟩ := Option.ite_none_right_eq_some.1 h
    obtain ⟨⟨x, q⟩, hq, rfl⟩ := Option.map_eq_some_iff.1 h
    cases hstores : recvMsg f.thr x with
    | none => simpa [hstores] using StmtSteps.refused hpc hq hstores
    | some stores => simpa [hstores] using StmtSteps.receive hpc hq hstores
  | printf =>
    obtain ⟨hpc, ⟨⟩⟩ := Option.ite_none_right_eq_some.1 h
    exact .printf hpc
  | thrMtype =>
    obtain ⟨hpc, ⟨⟩⟩ := Option.ite_none_right_eq_some.1 h
    exact .thrMtype hpc
  | reply =>
    obtain ⟨hpc, h⟩ := Option.ite_none_right_eq_some.1 h
    obtain ⟨q, hq, rfl⟩ := Option.map_eq_some_iff.1 h
    exact .reply hpc hq
  | join =>
    obtain ⟨⟨hmain, hthr⟩, ⟨⟩⟩ := Option.ite_none_right_eq_some.1 h
    exact .join hmain hthr

/-! ## What the two stacks hold -/

/-- The text that `main` sends: what `strncpy` has stored, the byte of `msg.buffer` behind it, and
the eight bytes behind `msg`, which were there when the program was started. -/
def payload (p : ℕ) (arg : CString) (mem₀ : Memory) : List UInt8 :=
  arg.strncpy BUFFER ++ load mem₀ (p + 8 + BUFFER) 9

/-- What the stack of `main` holds before its next statement, and what it has sent. -/
def MainInside (p : ℕ) (arg : CString) (mem₀ mem : Memory) : MainStmt → Option Message → Prop
  | .create, sent | .mtype, sent =>
    load mem (p + 8 + BUFFER) 9 = load mem₀ (p + 8 + BUFFER) 9 ∧ sent = none
  | .strncpy, sent =>
    load mem (p + 8 + BUFFER) 9 = load mem₀ (p + 8 + BUFFER) 9 ∧ loadLong mem p = 1 ∧ sent = none
  | .msgsnd, sent => sendMsg mem p = message 1 (payload p arg mem₀) ∧ sent = none
  | .join, sent | .done, sent => sent = some (message 1 (payload p arg mem₀))

/-- Of a message that fills the `msg.buffer` or has a NUL in it, the thread has printed the string
in the first 256 bytes. -/
def Printed (received : Option Message) (printed : Option (Option (List UInt8))) : Prop :=
  ∃ out, printed = some out ∧
    ∀ x ∈ received, BUFFER < x.text.length ∨ 0 ∈ x.text.take (BUFFER + 1) →
      out = CString.untilNul (x.text.take (BUFFER + 1))

/-- What the stack of the thread holds before its next statement, and what it has printed. -/
def ThrInside (p : ℕ) (mem : Memory) : ThrStmt → Option Message →
    Option (Option (List UInt8)) → Prop
  | .absent, received, printed | .msgrcv, received, printed => received = none ∧ printed = none
  | .printf, received, printed =>
    (∀ x ∈ received, load mem (p + 8) x.text.length = x.text) ∧ printed = none
  | .mtype, received, printed | .exit, received, printed => Printed received printed
  | .msgsnd, received, printed => Printed received printed ∧ loadLong mem p = 2

/-- What holds in every run, whatever other processes do to the queue. -/
structure ProcessOk (f : Frames) (arg : CString) (mem₀ : Memory) (s : Process) : Prop where
  main : MainInside f.main arg mem₀ s.mem s.main s.sent
  thr : ThrInside f.thr s.mem s.thr s.received s.printed
  created : s.main = .create → s.thr = .absent
  length_le : ∀ x ∈ s.received, x.text.length ≤ sizeofMsgtype

@[simp] theorem payload_length : (payload p arg mem₀).length = sizeofMsgtype := by
  simp [payload, BUFFER, sizeofMsgtype]

theorem MainInside.frame {pc : MainStmt} {sent : Option Message}
    (h : MainInside p arg mem₀ mem pc sent)
    (hmem : ∀ x, p ≤ x → x < p + (sizeofMsgtype + 8) → mem' x = mem x) :
    MainInside p arg mem₀ mem' pc sent := by
  have hrest : load mem' (p + 8 + BUFFER) 9 = load mem (p + 8 + BUFFER) 9 := by
    refine load_congr fun x hle hlt => hmem x ?_ ?_
    all_goals simp only [sizeofMsgtype, BUFFER] at *; omega
  have hlong : loadLong mem' p = loadLong mem p :=
    loadLong_congr fun x hle hlt => hmem x hle (by omega)
  have hsend : sendMsg mem' p = sendMsg mem p :=
    sent_congr fun x hle hlt => hmem x hle (by omega)
  cases pc with
  | create | mtype => exact ⟨hrest.trans h.1, h.2⟩
  | strncpy => exact ⟨hrest.trans h.1, hlong.trans h.2.1, h.2.2⟩
  | msgsnd => exact ⟨hsend.trans h.1, h.2⟩
  | join | done => exact h

theorem ThrInside.frame {pc : ThrStmt} {received : Option Message}
    {printed : Option (Option (List UInt8))} (h : ThrInside p mem pc received printed)
    (hlength : ∀ x ∈ received, x.text.length ≤ sizeofMsgtype)
    (hmem : ∀ x, p ≤ x → x < p + (sizeofMsgtype + 8) → mem' x = mem x) :
    ThrInside p mem' pc received printed := by
  have hlong : loadLong mem' p = loadLong mem p :=
    loadLong_congr fun x hle hlt => hmem x hle (by omega)
  cases pc with
  | absent | msgrcv | mtype | exit => exact h
  | printf =>
    refine ⟨fun x hx => ?_, h.2⟩
    have hle := hlength x hx
    have hload : load mem' (p + 8) x.text.length = load mem (p + 8) x.text.length :=
      load_congr fun y hle hlt => hmem y (by omega) (by omega)
    rw [hload, h.1 x hx]
  | msgsnd => exact ⟨h.1, hlong.trans h.2⟩

/-- `strncpy` completes the message of `main`. -/
theorem sendMsg_strncpy (hrest : load mem (p + 8 + BUFFER) 9 = load mem₀ (p + 8 + BUFFER) 9)
    (hlong : loadLong mem p = 1) :
    sendMsg (apply mem (storesAt (p + 8) (arg.strncpy BUFFER))) p =
      message 1 (payload p arg mem₀) := by
  generalize hbs : arg.strncpy BUFFER = bs
  have hlength : bs.length = BUFFER := by simp [← hbs]
  have htype : loadLong (apply mem (storesAt (p + 8) bs)) p = 1 :=
    (loadLong_congr fun x _ hlt => apply_storesAt_of_notMem (.inl hlt)).trans hlong
  have htext : load (apply mem (storesAt (p + 8) bs)) (p + 8) sizeofMsgtype =
      payload p arg mem₀ := by
    have hcopy : load (apply mem (storesAt (p + 8) bs)) (p + 8) BUFFER = bs :=
      hlength ▸ load_apply_storesAt
    have hbehind : load (apply mem (storesAt (p + 8) bs)) (p + 8 + BUFFER) 9 =
        load mem (p + 8 + BUFFER) 9 :=
      load_apply_storesAt_of_disjoint (.inr (by rw [hlength]))
    show load _ (p + 8) (BUFFER + 9) = _
    rw [load_add, hcopy, hbehind, hrest, ← hbs, payload]
  rw [sendMsg, sent, htext, htype]
  rfl

/-- A statement of one of the two threads leads to what holds before its next one, and leaves what
is on the stack of the other. -/
theorem ProcessOk.step (ok : ProcessOk f arg mem₀ s) (h : StmtSteps cap f arg s c t) :
    ProcessOk f arg mem₀ t := by
  obtain ⟨hmain, hthr, hcreated, hlength⟩ := ok
  have hdisjoint := f.disjoint
  have hstarted : s.thr ≠ .absent → s.main ≠ .create := fun hthr hmain => hthr (hcreated hmain)
  cases h with
  | create hpc =>
    rw [hcreated hpc] at hthr
    rw [hpc] at hmain
    exact ⟨hmain, hthr, by simp, hlength⟩
  | mainMtype hpc =>
    rw [hpc] at hmain
    obtain ⟨hrest, hsent⟩ := hmain
    refine ⟨⟨?_, loadLong_apply 1, hsent⟩, hthr.frame hlength fun x hle hlt => ?_, by simp,
      hlength⟩
    · rw [load_apply_storesAt_of_disjoint (.inr (by simp [Nat.add_assoc])), hrest]
    · exact apply_storesAt_of_notMem (by simp [sizeofMsgtype] at *; omega)
  | strncpy hpc =>
    rw [hpc] at hmain
    obtain ⟨hrest, hlong, hsent⟩ := hmain
    refine ⟨⟨sendMsg_strncpy hrest hlong, hsent⟩, hthr.frame hlength fun x hle hlt => ?_, by simp,
      hlength⟩
    exact apply_storesAt_of_notMem (by simp [sizeofMsgtype, BUFFER] at *; omega)
  | mainSend hpc hq =>
    rw [hpc] at hmain
    exact ⟨congrArg some hmain.1, hthr, by simp, hlength⟩
  | @receive x q stores hpc hq hstores =>
    rw [hpc] at hthr
    refine ⟨hmain.frame fun y hle hlt => ?_, ⟨?_, hthr.2⟩, fun h => ?_, ?_⟩
    · exact apply_received hstores (by simp [sizeofMsgtype] at *; omega)
    · rintro y ⟨⟩
      exact load_received hstores
    · exact absurd h (hstarted (by simp [hpc]))
    · rintro y ⟨⟩
      exact (received_eq_some.1 hstores).1
  | refused hpc hq hstores =>
    rw [hpc] at hthr
    refine ⟨hmain, ⟨?_, hthr.2⟩, fun h => ?_, hlength⟩
    · simp [hthr.1]
    · exact absurd h (hstarted (by simp [hpc]))
  | printf hpc =>
    rw [hpc] at hthr
    refine ⟨hmain, ⟨_, rfl, fun x hx hnul => ?_⟩, fun h => ?_, hlength⟩
    · rw [load_eq_take_append (hthr.1 x hx)]
      rcases hnul with hlong | hzero
      · rw [Nat.sub_eq_zero_of_le hlong]
        simp [load]
      · rw [CString.untilNul_append_of_mem hzero]
    · exact absurd h (hstarted (by simp [hpc]))
  | thrMtype hpc =>
    rw [hpc] at hthr
    refine ⟨hmain.frame fun y hle hlt => ?_, ⟨hthr, loadLong_apply 2⟩, fun h => ?_, hlength⟩
    · exact apply_storesAt_of_notMem (by simp [sizeofMsgtype] at *; omega)
    · exact absurd h (hstarted (by simp [hpc]))
  | reply hpc hq =>
    rw [hpc] at hthr
    refine ⟨hmain, hthr.1, fun h => ?_, hlength⟩
    exact absurd h (hstarted (by simp [hpc]))
  | join hpc hexit =>
    rw [hpc] at hmain
    exact ⟨hmain, hthr, by simp, hlength⟩

/-- Other processes change nothing but the queue. -/
theorem ProcessOk.withQueue (ok : ProcessOk f arg mem₀ s) (q : List Message) :
    ProcessOk f arg mem₀ { s with queue := q } :=
  ⟨ok.main, ok.thr, ok.created, ok.length_le⟩

theorem ProcessOk.init : ProcessOk f arg mem₀ (.init mem₀ q₀) :=
  ⟨⟨rfl, rfl⟩, ⟨rfl, rfl⟩, fun _ => rfl, by simp [Process.init]⟩

/-- In every run the two stacks hold what the statements so far have left there, whatever other
processes do to the queue. -/
theorem reachable_processOk {run : List (Stmt ⊕ List Message)}
    (h : exec (processStep cap f arg) (.init mem₀ q₀) run = some s) : ProcessOk f arg mem₀ s := by
  refine exec_induction (P := fun _ s => ProcessOk f arg mem₀ s) .init ?_ h
  intro _ s a t _ ok hstep
  cases a with
  | inl c => exact ok.step (stmtSteps_of_stmtStep hstep)
  | inr q =>
    cases hstep
    exact ok.withQueue q

/-- `main` sends one message, if any. -/
theorem ProcessOk.sent_eq (ok : ProcessOk f arg mem₀ s) (hsent : s.sent = some x) :
    x = message 1 (payload f.main arg mem₀) := by
  have hmain := ok.main
  rw [hsent] at hmain
  cases hpc : s.main with
  | create | mtype => simp [hpc, MainInside] at hmain
  | strncpy => simp [hpc, MainInside] at hmain
  | msgsnd => simp [hpc, MainInside] at hmain
  | join | done => simpa [hpc, MainInside] using hmain

/-! ## The refinement -/

def MainStmt.pc : MainStmt → MainPc
  | .create => .create
  | .mtype | .strncpy | .msgsnd => .send
  | .join => .join
  | .done => .done

def ThrStmt.pc (buffer : List UInt8) : ThrStmt → ThrPc (List UInt8)
  | .absent => .absent
  | .msgrcv => .receive
  | .printf | .mtype | .msgsnd => .reply buffer
  | .exit => .exit buffer

/-- The instance that the process is: what its thread has received is in its `msg.buffer` and behind
it. -/
def Process.inst (f : Frames) (s : Process) : Instance (List UInt8) :=
  ⟨s.main.pc, s.thr.pc (load s.mem (f.thr + 8) sizeofMsgtype)⟩

/-- The steps of the instance that a statement is. -/
def Stmt.acts : Stmt → List Act
  | .create => [.create]
  | .mainSend => [.mainSend]
  | .receive => [.receive]
  | .reply => [.reply]
  | .join => [.join]
  | .mainMtype | .strncpy | .printf | .thrMtype => []

/-- The messages of type 1 are as long as those of the program. -/
def OwnRequests (q : List Message) : Prop := ∀ x ∈ ofType 1 q, x.text.length = sizeofMsgtype

/-- What `main` stores in its `msg` is not in the thread's. -/
theorem load_thr {bs : List UInt8} {a : ℕ} (hle : f.main ≤ a)
    (hlt : a + bs.length ≤ f.main + sizeofMsgtype) :
    load (apply mem (storesAt a bs)) (f.thr + 8) sizeofMsgtype =
      load mem (f.thr + 8) sizeofMsgtype := by
  have hdisjoint := f.disjoint
  exact load_apply_storesAt_of_disjoint (by omega)

/-- **A statement is a step of the instance, or none.** -/
theorem StmtSteps.refines (h : StmtSteps cap f arg s c t) (ok : ProcessOk f arg mem₀ s)
    (hown : OwnRequests s.queue) :
    exec (fun x a => instStep cap (payload f.main arg mem₀) x.1 x.2 a) (s.inst f, s.queue) c.acts =
      some (t.inst f, t.queue) ∧ OwnRequests t.queue := by
  obtain ⟨hmain, hthr, -, -⟩ := ok
  cases h with
  | create hpc =>
    refine ⟨?_, hown⟩
    simp [Stmt.acts, instStep, Process.inst, hpc, MainStmt.pc, ThrStmt.pc]
  | mainMtype hpc =>
    refine ⟨?_, hown⟩
    have hload : load (apply s.mem (storesAt f.main (longBytes 1))) (f.thr + 8) sizeofMsgtype =
        load s.mem (f.thr + 8) sizeofMsgtype := load_thr le_rfl (by simp [sizeofMsgtype])
    simp [Stmt.acts, Process.inst, hpc, MainStmt.pc, hload]
  | strncpy hpc =>
    refine ⟨?_, hown⟩
    have hload : load (apply s.mem (storesAt (f.main + 8) (arg.strncpy BUFFER))) (f.thr + 8)
        sizeofMsgtype = load s.mem (f.thr + 8) sizeofMsgtype :=
      load_thr (by omega) (by simp [sizeofMsgtype, BUFFER])
    simp [Stmt.acts, Process.inst, hpc, MainStmt.pc, hload]
  | mainSend hpc hq =>
    rw [hpc] at hmain
    rw [hmain.1] at hq
    refine ⟨?_, ?_⟩
    · simp [Stmt.acts, instStep, Process.inst, hpc, MainStmt.pc, hq]
    · obtain ⟨-, rfl⟩ := msgsnd_eq_some.1 hq
      have htype : ofType 1 (s.queue ++ [message 1 (payload f.main arg mem₀)]) =
          ofType 1 s.queue ++ [message 1 (payload f.main arg mem₀)] := ofType_concat_self rfl
      intro x hx
      rcases List.mem_append.1 (htype ▸ hx) with hx | hx
      · exact hown x hx
      · obtain rfl := List.mem_singleton.1 hx
        simp
  | @receive x q stores hpc hq hstores =>
    obtain ⟨-, htype, -⟩ := ofType_msgrcv hq
    rw [OwnRequests, htype, List.forall_mem_cons] at hown
    have hload := load_received (m := s.mem) hstores
    rw [hown.1] at hload
    refine ⟨?_, hown.2⟩
    simp [Stmt.acts, instStep, Process.inst, hpc, ThrStmt.pc, hq, hload]
  | @refused x q hpc hq hstores =>
    obtain ⟨-, htype, -⟩ := ofType_msgrcv hq
    rw [OwnRequests, htype, List.forall_mem_cons] at hown
    simp [recvMsg, received, hown.1] at hstores
  | printf hpc =>
    refine ⟨?_, hown⟩
    simp [Stmt.acts, Process.inst, hpc, ThrStmt.pc]
  | thrMtype hpc =>
    refine ⟨?_, hown⟩
    have hload : load (apply s.mem (storesAt f.thr (longBytes 2))) (f.thr + 8) sizeofMsgtype =
        load s.mem (f.thr + 8) sizeofMsgtype := load_apply_storesAt_of_disjoint (.inr (by simp))
    simp [Stmt.acts, Process.inst, hpc, ThrStmt.pc, hload]
  | reply hpc hq =>
    rw [hpc] at hthr
    have hsend : sendMsg s.mem f.thr = message 2 (load s.mem (f.thr + 8) sizeofMsgtype) := by
      rw [sendMsg, sent, hthr.2]
      rfl
    rw [hsend] at hq
    refine ⟨?_, ?_⟩
    · simp [Stmt.acts, instStep, Process.inst, hpc, ThrStmt.pc, hq]
    · obtain ⟨-, rfl⟩ := msgsnd_eq_some.1 hq
      rwa [OwnRequests, ofType_concat_of_ne (by simp [message])]
  | join hpc hexit =>
    refine ⟨?_, hown⟩
    simp [Stmt.acts, instStep, Process.inst, hpc, hexit, MainStmt.pc, ThrStmt.pc]

/-- **Refinement.** On a queue whose messages of type 1 are as long as those of the program, the
process runs as an instance, which is given the 264 bytes that `main` sends. -/
theorem process_refines {run : List Stmt} (hown : OwnRequests q₀)
    (h : exec (stmtStep cap f arg) (.init mem₀ q₀) run = some s) :
    exec (fun x a => instStep cap (payload f.main arg mem₀) x.1 x.2 a) (Instance.init, q₀)
      (run.flatMap Stmt.acts) = some (s.inst f, s.queue) := by
  let R (s : Process) (x : Instance (List UInt8) × List Message) : Prop :=
    ProcessOk f arg mem₀ s ∧ OwnRequests s.queue ∧ x = (s.inst f, s.queue)
  have hstep : ∀ {s c t x}, R s x → stmtStep cap f arg s c = some t →
      ∃ y, exec (fun x a => instStep cap (payload f.main arg mem₀) x.1 x.2 a) x c.acts = some y ∧
        R t y := by
    rintro s c t x ⟨ok, hown, rfl⟩ hc
    have hsteps := stmtSteps_of_stmtStep hc
    obtain ⟨hexec, hown⟩ := hsteps.refines ok hown
    exact ⟨_, hexec, ok.step hsteps, hown, rfl⟩
  obtain ⟨x, hx, -, -, rfl⟩ := exec_simulation hstep ⟨.init, hown, rfl⟩ h
  exact hx

end Starrysky.Msgqueue
