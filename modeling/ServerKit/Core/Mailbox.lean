import ServerKit.Base.YPipe
import ServerKit.Core.Signaler
import Mathlib.Logic.Function.Basic

/-!
# `core/mailbox.h`, `core/mailbox.cc`

Any number of threads call `Send` and one thread calls `Recv`. The pipe of the mailbox is a
parameter, given by its steps: `YPipeStep` is the repository's, `PipeStep` the abstract one.
-/

namespace ServerKit

open Lib

/-- Where a thread is in `Mailbox::Send`. -/
inductive SendPc (M : Type)
  /-- Not in `Send`. -/
  | idle
  /-- Behind `sync_.Lock()`. -/
  | locked (msg : M)
  /-- Behind `pipe_.Write(msg, false)`. -/
  | written
  /-- In `pipe_.Flush()`, behind a compare-and-swap that has failed. -/
  | flushing
  /-- Behind `pipe_.Flush()`. -/
  | flushed (ok : Bool)
  /-- In `signaler_.Send()`, before `write`. -/
  | signalling (dummy : UInt64)
deriving DecidableEq, Repr

/-- Where the receiver is in `Mailbox::Recv`. -/
inductive RecvPc
  /-- Not in `Recv`. -/
  | idle
  /-- At the first `pipe_.Read(msg)`. -/
  | firstRead
  /-- At `signaler_.Wait(timeout)`. -/
  | wait
  /-- At `signaler_.RecvFailable()`. -/
  | recvSignal
  /-- At the second `pipe_.Read(msg)`. -/
  | secondRead
deriving DecidableEq, Repr

/-- A `Mailbox` over a pipe with states `S`, the counter of its signaler, the thread that holds
`sync_`, and where the threads are. -/
structure Mailbox (S M : Type) where
  pipe : S
  counter : ℕ
  sync : Option ℕ
  active : Bool
  send : ℕ → SendPc M
  recv : RecvPc

/-- A step of a sender, named by its number, or of the receiver, with what it returns. -/
inductive MailboxEvent (M : Type)
  | lock (i : ℕ) (msg : M)
  | write (i : ℕ)
  | flush (i : ℕ)
  | unLock (i : ℕ) (dummy : UInt64)
  | signal (i : ℕ)
  | signalInterrupted (i : ℕ)
  | recv
  | firstRead (r : Option M)
  | wait (rc : ℤ)
  | recvSignal (rc : ℤ)
  | secondRead (r : Option M)
deriving DecidableEq, Repr

namespace Mailbox

variable {S M : Type}

/-- `Mailbox::Mailbox`, behind its `pipe_.CheckRead()`. -/
def new (pipe : S) : Mailbox S M where
  pipe := pipe
  counter := 0
  sync := none
  active := false
  send := fun _ => .idle
  recv := .idle

/-- The sender `i` goes on to `pc`. -/
def setSend (s : Mailbox S M) (i : ℕ) (pc : SendPc M) : Mailbox S M :=
  { s with send := Function.update s.send i pc }

/-- The receiver goes on to `pc`. -/
def setRecv (s : Mailbox S M) (pc : RecvPc) : Mailbox S M := { s with recv := pc }

/-- Writes `pipe_`. -/
def setPipe (s : Mailbox S M) (pipe : S) : Mailbox S M := { s with pipe := pipe }

/-- Writes `sync_`. -/
def setSync (s : Mailbox S M) (sync : Option ℕ) : Mailbox S M := { s with sync := sync }

/-- Writes `active_`. -/
def setActive (s : Mailbox S M) (active : Bool) : Mailbox S M := { s with active := active }

/-- Writes the counter of `signaler_`. -/
def setCounter (s : Mailbox S M) (counter : ℕ) : Mailbox S M := { s with counter := counter }

end Mailbox

/-- One step of a thread that uses the mailbox. -/
inductive MailboxStep {S M : Type} (PStep : Lts S (PipeEvent M)) :
    Lts (Mailbox S M) (MailboxEvent M)
  | lock {s : Mailbox S M} {i : ℕ} {msg : M} : s.send i = .idle → s.sync = none →
      MailboxStep PStep s (.lock i msg) ((s.setSync (some i)).setSend i (.locked msg))
  | write {s : Mailbox S M} {i : ℕ} {msg : M} {pipe : S} : s.send i = .locked msg →
      PStep s.pipe (.write msg false) pipe →
      MailboxStep PStep s (.write i) ((s.setPipe pipe).setSend i .written)
  | flushNothing {s : Mailbox S M} {i : ℕ} {pipe : S} : s.send i = .written →
      PStep s.pipe .flushNothing pipe →
      MailboxStep PStep s (.flush i) ((s.setPipe pipe).setSend i (.flushed true))
  | flushTry {s : Mailbox S M} {i : ℕ} {pipe : S} {awake : Bool} : s.send i = .written →
      PStep s.pipe (.flushTry awake) pipe →
      MailboxStep PStep s (.flush i)
        ((s.setPipe pipe).setSend i (if awake then .flushed true else .flushing))
  | flushSet {s : Mailbox S M} {i : ℕ} {pipe : S} : s.send i = .flushing →
      PStep s.pipe .flushSet pipe →
      MailboxStep PStep s (.flush i) ((s.setPipe pipe).setSend i (.flushed false))
  | unLock {s : Mailbox S M} {i : ℕ} {ok : Bool} (dummy : UInt64) : s.send i = .flushed ok →
      MailboxStep PStep s (.unLock i dummy)
        ((s.setSync none).setSend i (if !ok then .signalling dummy else .idle))
  | signal {s : Mailbox S M} {i : ℕ} {dummy : UInt64} : s.send i = .signalling dummy →
      MailboxStep PStep s (.signal i)
        ((s.setCounter (Signaler.send s.counter dummy)).setSend i .idle)
  | signalInterrupted {s : Mailbox S M} {i : ℕ} {dummy : UInt64} :
      s.send i = .signalling dummy → MailboxStep PStep s (.signalInterrupted i) s
  | recv {s : Mailbox S M} : s.recv = .idle →
      MailboxStep PStep s .recv (s.setRecv (if s.active then .firstRead else .wait))
  | firstRead {s : Mailbox S M} {pipe : S} {msg : M} : s.recv = .firstRead →
      PStep s.pipe (.read (some msg)) pipe →
      MailboxStep PStep s (.firstRead (some msg)) ((s.setPipe pipe).setRecv .idle)
  | firstReadNone {s : Mailbox S M} {pipe : S} : s.recv = .firstRead →
      PStep s.pipe (.read none) pipe →
      MailboxStep PStep s (.firstRead none) (((s.setPipe pipe).setActive false).setRecv .wait)
  | wait {s : Mailbox S M} {rc : ℤ} : s.recv = .wait → Signaler.Wait s.counter rc →
      MailboxStep PStep s (.wait rc) (s.setRecv (if rc = -1 then .idle else .recvSignal))
  | recvSignal {s : Mailbox S M} {rc : ℤ} {counter : ℕ} : s.recv = .recvSignal →
      Signaler.recvFailable s.counter = (rc, counter) →
      MailboxStep PStep s (.recvSignal rc)
        (if rc = -1 then (s.setCounter counter).setRecv .idle
         else ((s.setCounter counter).setActive true).setRecv .secondRead)
  | secondRead {s : Mailbox S M} {pipe : S} {r : Option M} : s.recv = .secondRead →
      PStep s.pipe (.read r) pipe →
      MailboxStep PStep s (.secondRead r) ((s.setPipe pipe).setRecv .idle)

/-- The mailbox of the repository before any step: its pipe is a new one behind a `CheckRead`. -/
def Mailbox.Start {M : Type} (s : Mailbox (YPipeState M 16) M) : Prop :=
  ∃ (p p' : ChunkPtr) (y y' : YPipe M 16) (found : Bool), p' ≠ p ∧ YPipe.new p p' = some y ∧
    y.checkRead = (found, y') ∧ s = .new ⟨y', false⟩

end ServerKit
