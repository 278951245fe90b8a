import ServerKit.Core.EventLoop

/-!
# The connections of the Sockets

What the kernel knows of the connection behind each Socket: how its connect has ended, the bytes
that have arrived, and what `epoll_wait` has reported. The answers of the system calls follow it.
`EPOLLET` makes `epoll_wait` report arrived bytes once: nothing here makes it report again what has
been reported.
-/

namespace ServerKit

open Lib

/-- The connection behind a Socket. `moved` bytes of those that have arrived have been moved into
`read_list_`, and `edge` had arrived when `EPOLLIN` was last reported. `onConnects` is the history
of the handler: the arguments of its calls of `OnConnect`. -/
structure Connection where
  /-- Whether the connect has succeeded, once it has ended. -/
  outcome : Option Bool
  /-- An event that reports the failed connect has been returned. -/
  failureReported : Bool
  arrived : List UInt8
  moved : ℕ
  edge : ℕ
  onConnects : List ℤ
deriving DecidableEq, Repr

namespace Connection

/-- Before the Socket is created. -/
def new : Connection where
  outcome := none
  failureReported := false
  arrived := []
  moved := 0
  edge := 0
  onConnects := []

/-- Events of the Socket are returned, with these masks. -/
def report (c : Connection) (masks : List EventMask) : Connection :=
  { c with
    failureReported := c.failureReported || (!masks.isEmpty && c.outcome == some false)
    edge := if masks.any EventMask.input then c.arrived.length else c.edge }

/-- A `::read` has moved `n` bytes. -/
def move (c : Connection) (n : ℕ) : Connection := { c with moved := c.moved + n }

/-- The connect ends. -/
def done (c : Connection) (ok : Bool) : Connection := { c with outcome := some ok }

def arrive (c : Connection) (bytes : List UInt8) : Connection :=
  { c with arrived := c.arrived ++ bytes }

/-- `handler_->OnConnect(err)` is called. -/
def onConnect (c : Connection) (err : ℤ) : Connection :=
  { c with onConnects := c.onConnects ++ [err] }

end Connection

/-- The thread and the connections. -/
structure Net (σ : Type) where
  loop : EventLoop σ
  conns : SocketPtr → Connection

inductive NetEvent
  | loop (e : LoopEvent)
  /-- The connect of a client Socket ends. -/
  | connectDone (k : SocketPtr) (ok : Bool)
  | arrive (k : SocketPtr) (bytes : List UInt8)
deriving DecidableEq, Repr

namespace Net

variable {σ : Type}

def new (loop : EventLoop σ) : Net σ where
  loop := loop
  conns := fun _ => .new

def setConn (w : Net σ) (k : SocketPtr) (c : Connection) : Net σ :=
  { w with conns := Function.update w.conns k c }

/-- The Socket of an event. -/
def eventOf (w : Net σ) (ev : EpollEvent) : Option SocketPtr :=
  (w.loop.epoll.entries ev.ptr).map EpollEntry.event

/-- The kernel may report the event: its entry is registered, the descriptor has not been closed,
and the connect of a client Socket has ended, with `EPOLLERR` or `EPOLLHUP` if it has failed. -/
def Reportable (w : Net σ) (ev : EpollEvent) : Prop :=
  ∃ en s, w.loop.epoll.entries ev.ptr = some en ∧ en.fd ≠ kInvalidFd ∧
    w.loop.sockets en.event = some s ∧ s.fdClosed = false ∧
    (s.type = .client → (w.conns en.event).outcome ≠ none ∧
      ((w.conns en.event).outcome = some false → ev.events.errOrHup = true))

/-- The kernel may answer a `::read` so: with bytes that have arrived, with 0 at the end of them or
when none are asked for, and with `EAGAIN` only when there are none. -/
def Readable (c : Connection) (s : Socket) : ReadResult → Prop
  | .bytes src => src <+: c.arrived.drop c.moved
  | .zero _ => c.arrived.length ≤ c.moved ∨ s.readList.writeableSize = 0
  | .error errno => isIOTryAgain errno = true → c.arrived.length ≤ c.moved

/-- What the kernel may answer in the step `e`. It does not register the file descriptor -1. -/
def Answers (w : Net σ) : LoopEvent → Prop
  | .setPoller k added | .connect k _ added =>
    added = true → ∀ s, w.loop.sockets k = some s → s.fd ≠ kInvalidFd
  | .epollWait events => ∀ ev ∈ events, w.Reportable ev
  | .sysRead r => ∀ k pc rest s, w.loop.stack = .input k pc :: rest →
      w.loop.sockets k = some s → Readable (w.conns k) s r
  | _ => True

/-- What a step of the thread changes in the connection of the Socket `k`. -/
def observe (w : Net σ) (k : SocketPtr) : LoopEvent → Connection
  | .epollWait events =>
    (w.conns k).report ((events.filter fun ev => w.eventOf ev == some k).map EpollEvent.events)
  | .sysRead (.bytes src) =>
    match w.loop.stack with
    | .input j _ :: _ => if j = k then (w.conns k).move src.length else w.conns k
    | _ => w.conns k
  | .connect j err _ =>
    match w.loop.sockets j with
    | some s =>
      if j = k ∧ s.status = .init ∧ err ≠ kOK then (w.conns k).onConnect err else w.conns k
    | none => w.conns k
  | .run =>
    match w.loop.stack, w.loop.sockets k with
    | .out j (.start _) :: _, some s =>
      if j = k ∧ s.status = .connecting then (w.conns k).onConnect kOK else w.conns k
    | _, _ => w.conns k
  | _ => w.conns k

end Net

/-- One step, over the pool `P` of Buffers. -/
inductive NetStep {σ : Type} (P : ObjectPool σ) : Lts (Net σ) NetEvent
  | loop {w : Net σ} {e : LoopEvent} {loop : EventLoop σ} : w.Answers e →
      LoopStep P w.loop e loop → NetStep P w (.loop e) ⟨loop, fun k => w.observe k e⟩
  | connectDone {w : Net σ} {k : SocketPtr} {s : Socket} {ok : Bool} :
      w.loop.sockets k = some s → s.type = .client → s.status ≠ .init →
      (w.conns k).outcome = none →
      NetStep P w (.connectDone k ok) (w.setConn k ((w.conns k).done ok))
  | arrive {w : Net σ} {k : SocketPtr} (bytes : List UInt8) :
      NetStep P w (.arrive k bytes) (w.setConn k ((w.conns k).arrive bytes))

end ServerKit
