import Starrysky.Lib.MessageQueue

/-!
# An instance of the `msgqueue` program

`main` starts the thread `thr_test`, sends the thread the program's argument as a message of type 1,
and joins it; the thread receives a message of type 1 and sends its text back as a message of type
2, which nobody receives. The queue belongs to the key, not to the instance, and outlives it. Each
call of `msgsnd` or `msgrcv` is one step; `printf` and the time are left out, and so are messages of
other programs that `msgrcv` refuses as too long.
-/

namespace Starrysky.Msgqueue

open MessageQueue

/-- `sizeof(struct msgtype)`: a `long` and 256 characters. -/
def sizeofMsgtype : ℕ := 264

variable {β : Type}

/-- What `msgsnd(msgid, &msg, sizeof(struct msgtype), 0)` sends. -/
def message (mtype : ℤ) (buffer : β) : Msg β := ⟨mtype, buffer, sizeofMsgtype⟩

@[simp] theorem message_text {mtype : ℤ} {buffer : β} : (message mtype buffer).text = buffer := rfl

/-- Where `main` stands: before `pthread_create`, before `msgsnd`, in `pthread_join`, or at its end.
-/
inductive MainPc where
  | create
  | send
  | join
  | done
  deriving DecidableEq

/-- Where `thr_test` stands: not created, in `msgrcv`, before `msgsnd` with the text that it has
received, or at its end. -/
inductive ThrPc (β : Type) where
  | absent
  | receive
  | reply (buffer : β)
  | exit (buffer : β)
  deriving DecidableEq

/-- A run of the program: its `main` and its thread. -/
structure Instance (β : Type) where
  main : MainPc
  thr : ThrPc β
  deriving DecidableEq

/-- The program is started. -/
def Instance.init : Instance β := { main := .create, thr := .absent }

inductive Act where
  /-- `pthread_create` -/
  | create
  /-- the `msgsnd` of `main` -/
  | mainSend
  /-- `msgrcv` of type 1 -/
  | receive
  /-- the `msgsnd` of `thr_test` -/
  | reply
  /-- `pthread_join` returns -/
  | join
  deriving DecidableEq

/-- A step of an instance that was given the argument `arg`, with the queue. -/
def instStep (cap : Option ℕ) (arg : β) (i : Instance β) (q : List (Msg β)) :
    Act → Option (Instance β × List (Msg β))
  | .create =>
    match i.main with
    | .create => some ({ main := .send, thr := .receive }, q)
    | _ => none
  | .mainSend =>
    match i.main with
    | .send => (msgsnd cap q (message 1 arg)).map fun q => ({ i with main := .join }, q)
    | _ => none
  | .receive =>
    match i.thr with
    | .receive => (msgrcv 1 q).map fun (m, q) => ({ i with thr := .reply m.text }, q)
    | _ => none
  | .reply =>
    match i.thr with
    | .reply buffer =>
      (msgsnd cap q (message 2 buffer)).map fun q => ({ i with thr := .exit buffer }, q)
    | _ => none
  | .join =>
    match i.main, i.thr with
    | .join, .exit _ => some ({ i with main := .done }, q)
    | _, _ => none

/-- The steps of an instance, with what enables them. -/
inductive InstSteps (cap : Option ℕ) (arg : β) :
    Instance β → List (Msg β) → Act → Instance β → List (Msg β) → Prop
  | create {thr : ThrPc β} {q : List (Msg β)} :
    InstSteps cap arg ⟨.create, thr⟩ q .create ⟨.send, .receive⟩ q
  | mainSend {thr : ThrPc β} {q q' : List (Msg β)} : msgsnd cap q (message 1 arg) = some q' →
    InstSteps cap arg ⟨.send, thr⟩ q .mainSend ⟨.join, thr⟩ q'
  | receive {main : MainPc} {m : Msg β} {q q' : List (Msg β)} : msgrcv 1 q = some (m, q') →
    InstSteps cap arg ⟨main, .receive⟩ q .receive ⟨main, .reply m.text⟩ q'
  | reply {main : MainPc} {buffer : β} {q q' : List (Msg β)} :
    msgsnd cap q (message 2 buffer) = some q' →
    InstSteps cap arg ⟨main, .reply buffer⟩ q .reply ⟨main, .exit buffer⟩ q'
  | join {buffer : β} {q : List (Msg β)} :
    InstSteps cap arg ⟨.join, .exit buffer⟩ q .join ⟨.done, .exit buffer⟩ q

theorem instSteps_of_instStep {cap : Option ℕ} {arg : β} {i j : Instance β} {q q' : List (Msg β)}
    {a : Act} (h : instStep cap arg i q a = some (j, q')) : InstSteps cap arg i q a j q' := by
  obtain ⟨main, thr⟩ := i
  cases a with
  | create =>
    cases main with
    | create => cases h; exact .create
    | send | join | done => cases h
  | mainSend =>
    cases main with
    | send =>
      obtain ⟨q, hq, ⟨⟩⟩ := Option.map_eq_some_iff.1 h
      exact .mainSend hq
    | create | join | done => cases h
  | receive =>
    cases thr with
    | receive =>
      obtain ⟨⟨m, q⟩, hq, ⟨⟩⟩ := Option.map_eq_some_iff.1 h
      exact .receive hq
    | absent | reply | exit => cases h
  | reply =>
    cases thr with
    | reply buffer =>
      obtain ⟨q, hq, ⟨⟩⟩ := Option.map_eq_some_iff.1 h
      exact .reply hq
    | absent | receive | exit => cases h
  | join =>
    cases main with
    | join =>
      cases thr with
      | exit buffer => cases h; exact .join
      | absent | receive | reply => cases h
    | create | send | done => cases h

end Starrysky.Msgqueue
