import ServerKit.Core.Listener
import ServerKit.Core.Mailbox

/-!
# `core/worker.cc`, and how `core/application.cc` hands Sessions to the Workers

The thread of the `Application` calls `AcceptNewSession` and `CreateRpcChannel`, which select a
Worker and send it a message; the Worker gets its messages in `Worker::In` and binds the Sessions to
its poller. Other threads may send other messages to a Worker at any time.
-/

namespace ServerKit

open Lib

/-- A `Message*`: an `AcceptMessage`, an `RpcChannelMessage`, named by its request, or a `Message`
of another type. -/
inductive Message
  | accept (session : SessionPtr)
  | rpcChannel (request : ℕ)
  | other (type : ℤ)
deriving DecidableEq, Repr

/-- Where the thread of the `Application` is. -/
inductive MainPc
  /-- In neither `AcceptNewSession` nor `CreateRpcChannel`. -/
  | idle
  /-- Before `worker->Send(msg)`. -/
  | call (worker : WorkerPtr) (msg : Message)
  /-- In `worker->Send`. -/
  | inSend (worker : WorkerPtr)
deriving DecidableEq, Repr

/-- Where a Worker is. -/
inductive WorkerPc
  /-- Not in `Worker::In`. -/
  | away
  /-- Before `mailbox_.Recv(&msg, 0)`. -/
  | calling
  /-- In `Recv`. -/
  | receiving
  /-- Before `msg->Process()`, with what `Recv` has stored in `msg`, if anything. -/
  | process (msg : Option Message)
deriving DecidableEq, Repr

namespace WorkerPc

/-- Where a step of `Recv` leaves a Worker. `interrupted` says whether `errno` is `EINTR` behind a
`Recv` that fails. -/
def after (interrupted : Bool) : MailboxEvent Message → WorkerPc
  | .firstRead (some msg) => .process (some msg)
  | .secondRead r => .process r
  | .wait rc | .recvSignal rc =>
    if rc = -1 then (if interrupted then .calling else .away) else .receiving
  | _ => .receiving

end WorkerPc

/-- Whose step of a `Mailbox` it is: a sender's, or the receiver's. -/
def MailboxEvent.sender {M : Type} : MailboxEvent M → Option ℕ
  | lock i _ | write i | flush i | unLock i _ | signal i | signalInterrupted i => some i
  | recv | firstRead _ | wait _ | recvSignal _ | secondRead _ => none

/-- The `Application` with its Workers. Its thread is the sender 0 of their mailboxes. `nextSession`
is the address of the next Session, `bound` says to which Worker's poller a Session is bound, and
`channels` are the requests for which `RpcChannel`s have been made, and where. -/
structure WorkerPool where
  application : Application
  main : MainPc
  nextSession : SessionPtr
  mailbox : WorkerPtr → Mailbox (YPipeState Message 16) Message
  pc : WorkerPtr → WorkerPc
  bound : SessionPtr → Option WorkerPtr
  channels : List (WorkerPtr × ℕ)

namespace WorkerPool

def setMain (s : WorkerPool) (main : MainPc) : WorkerPool := { s with main := main }

def setMailbox (s : WorkerPool) (w : WorkerPtr) (mb : Mailbox (YPipeState Message 16) Message) :
    WorkerPool :=
  { s with mailbox := Function.update s.mailbox w mb }

def setPc (s : WorkerPool) (w : WorkerPtr) (pc : WorkerPc) : WorkerPool :=
  { s with pc := Function.update s.pc w pc }

@[simp] theorem setMain_main (s : WorkerPool) (main : MainPc) : (s.setMain main).main = main := rfl
@[simp] theorem setMain_mailbox (s : WorkerPool) (main : MainPc) :
    (s.setMain main).mailbox = s.mailbox := rfl
@[simp] theorem setMain_pc (s : WorkerPool) (main : MainPc) : (s.setMain main).pc = s.pc := rfl
@[simp] theorem setMailbox_main (s : WorkerPool) (w : WorkerPtr)
    (mb : Mailbox (YPipeState Message 16) Message) : (s.setMailbox w mb).main = s.main := rfl
@[simp] theorem setMailbox_pc (s : WorkerPool) (w : WorkerPtr)
    (mb : Mailbox (YPipeState Message 16) Message) : (s.setMailbox w mb).pc = s.pc := rfl
@[simp] theorem setPc_main (s : WorkerPool) (w : WorkerPtr) (pc : WorkerPc) :
    (s.setPc w pc).main = s.main := rfl
@[simp] theorem setPc_mailbox (s : WorkerPool) (w : WorkerPtr) (pc : WorkerPc) :
    (s.setPc w pc).mailbox = s.mailbox := rfl
@[simp] theorem setPc_pc (s : WorkerPool) (w : WorkerPtr) (pc : WorkerPc) :
    (s.setPc w pc).pc = Function.update s.pc w pc := rfl

/-- `Worker::Process`; `Socket::SetPoller` asserts that the Session has no poller. -/
def process (s : WorkerPool) (w : WorkerPtr) : Message → Except Fault WorkerPool
  | .accept session =>
    if s.bound session = none then
      .ok { s with bound := Function.update s.bound session (some w) }
    else .error .assertion
  | .rpcChannel request => .ok { s with channels := s.channels ++ [(w, request)] }
  | .other _ => .ok s

/-- The Workers have been started, and nothing has been sent. -/
def Start (s : WorkerPool) : Prop :=
  s.application.workers.Nodup ∧ s.main = .idle ∧ (∀ w, (s.mailbox w).Start) ∧
    (∀ w, s.pc w = .away) ∧ ∀ session, s.bound session = none

end WorkerPool

inductive WorkerEvent
  /-- `AcceptNewSession(session)` has selected `worker`. -/
  | accept (worker : WorkerPtr) (session : SessionPtr)
  /-- `CreateRpcChannel` has selected `worker`. -/
  | createRpcChannel (worker : WorkerPtr) (request : ℕ)
  /-- The thread of the `Application`, in `worker->Send`. -/
  | main (worker : WorkerPtr) (e : MailboxEvent Message)
  /-- Another thread, in `worker->Send`. -/
  | other (worker : WorkerPtr) (e : MailboxEvent Message)
  /-- `Worker::In` is called. -/
  | in_ (worker : WorkerPtr)
  /-- The Worker, in `Recv`. -/
  | recv (worker : WorkerPtr) (e : MailboxEvent Message) (interrupted : Bool)
  | process (worker : WorkerPtr) (msg : Message)
deriving DecidableEq, Repr

/-- One step of a thread. -/
inductive WorkerStep : Lts WorkerPool WorkerEvent
  | accept {s : WorkerPool} {w : WorkerPtr} {a : Application} : s.main = .idle →
      s.application.selectWorker = (w, a) →
      WorkerStep s (.accept w s.nextSession)
        { s with
          application := a
          nextSession := s.nextSession + 1
          main := .call w (.accept s.nextSession) }
  | createRpcChannel {s : WorkerPool} {w : WorkerPtr} {a : Application} (request : ℕ) :
      s.main = .idle → s.application.selectWorker = (w, a) →
      WorkerStep s (.createRpcChannel w request)
        { s with application := a, main := .call w (.rpcChannel request) }
  | mainLock {s : WorkerPool} {w : WorkerPtr} {msg : Message}
      {mb : Mailbox (YPipeState Message 16) Message} : s.main = .call w msg →
      MailboxStep YPipeStep (s.mailbox w) (.lock 0 msg) mb →
      WorkerStep s (.main w (.lock 0 msg)) ((s.setMailbox w mb).setMain (.inSend w))
  | mainSend {s : WorkerPool} {w : WorkerPtr} {e : MailboxEvent Message}
      {mb : Mailbox (YPipeState Message 16) Message} : s.main = .inSend w → e.sender = some 0 →
      (∀ msg, e ≠ .lock 0 msg) → MailboxStep YPipeStep (s.mailbox w) e mb →
      WorkerStep s (.main w e)
        ((s.setMailbox w mb).setMain (if mb.send 0 = .idle then .idle else .inSend w))
  | other {s : WorkerPool} {w : WorkerPtr} {i : ℕ} {e : MailboxEvent Message}
      {mb : Mailbox (YPipeState Message 16) Message} : e.sender = some (i + 1) →
      (∀ session, e ≠ .lock (i + 1) (.accept session)) →
      MailboxStep YPipeStep (s.mailbox w) e mb →
      WorkerStep s (.other w e) (s.setMailbox w mb)
  | in_ {s : WorkerPool} {w : WorkerPtr} : s.pc w = .away →
      WorkerStep s (.in_ w) (s.setPc w .calling)
  | recv {s : WorkerPool} {w : WorkerPtr} {mb : Mailbox (YPipeState Message 16) Message} :
      s.pc w = .calling → MailboxStep YPipeStep (s.mailbox w) .recv mb →
      WorkerStep s (.recv w .recv false) ((s.setMailbox w mb).setPc w .receiving)
  | receive {s : WorkerPool} {w : WorkerPtr} {e : MailboxEvent Message}
      {mb : Mailbox (YPipeState Message 16) Message} (interrupted : Bool) :
      s.pc w = .receiving → e.sender = none → e ≠ .recv →
      MailboxStep YPipeStep (s.mailbox w) e mb →
      WorkerStep s (.recv w e interrupted)
        ((s.setMailbox w mb).setPc w (WorkerPc.after interrupted e))
  | process {s s' : WorkerPool} {w : WorkerPtr} {msg : Message} :
      s.pc w = .process (some msg) → s.process w msg = .ok s' →
      WorkerStep s (.process w msg) (s'.setPc w .calling)

end ServerKit
