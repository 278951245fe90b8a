import ServerKit.Core.Socket
import ServerKit.Lib.Lts

/-!
# The event loop: Sockets and their `Epoll`

One thread runs rounds of `Epoll::Poll`. A round calls `Out` and `In` of Sockets, and these the
callbacks of their handlers; between two rounds, and in a callback, other code runs, which may
create Sockets, connect them, attach them to the poller, write to them and read from them.
-/

namespace ServerKit

open Lib

/-- Which check of an event `Epoll::Poll` has come to. -/
inductive EventStage
  | error
  | input
  | output
deriving DecidableEq, Repr

/-- Where the loop is in `Epoll::Poll`. -/
inductive PollPc
  /-- Between two rounds. -/
  | idle
  /-- In the first loop; `iter` is the place of the next entry in `writeable_list_`. -/
  | writeable (iter : ℕ)
  /-- In the second loop, with the events still to come. -/
  | events (stage : EventStage) (rest : List EpollEvent)
deriving DecidableEq, Repr

/-- A function of a Socket that has been called and not returned. -/
inductive Frame
  | out (k : SocketPtr) (pc : OutPc)
  | input (k : SocketPtr) (pc : InPc)
  /-- `Socket::Connect`, in `handler_->OnConnect(err)`. -/
  | connect (k : SocketPtr)
deriving DecidableEq, Repr

/-- Whether the function is in a callback. -/
def Frame.InCallback : Frame → Prop
  | out _ pc => (Socket.outReturn pc).isSome
  | input _ pc => (Socket.inReturn pc).isSome
  | connect _ => True

/-- The thread: its Sockets, its poller, its memory, and what it is in the middle of. -/
structure EventLoop (σ : Type) where
  sockets : SocketPtr → Option Socket
  epoll : Epoll
  mem : Memory σ
  poll : PollPc
  stack : List Frame

namespace EventLoop

variable {σ : Type}

/-- Writes the Socket `k`. -/
def setSocket (w : EventLoop σ) (k : SocketPtr) (s : Socket) : EventLoop σ :=
  { w with sockets := Function.update w.sockets k (some s) }

def setEpoll (w : EventLoop σ) (epoll : Epoll) : EventLoop σ := { w with epoll := epoll }

def setMem (w : EventLoop σ) (mem : Memory σ) : EventLoop σ := { w with mem := mem }

def setPoll (w : EventLoop σ) (poll : PollPc) : EventLoop σ := { w with poll := poll }

def setStack (w : EventLoop σ) (stack : List Frame) : EventLoop σ := { w with stack := stack }

/-- Other code runs: between two rounds, or in a callback. -/
def UserRuns (w : EventLoop σ) : Prop :=
  match w.stack with
  | [] => w.poll = .idle
  | f :: _ => f.InCallback

/-- `Epoll::MarkWriteable` of a handle. -/
def markWriteable (w : EventLoop σ) (handle : Option EpollEntryPtr) : EventLoop σ :=
  w.setEpoll (w.epoll.markWriteable handle)

/-- The rest of `Socket::Write` of the Socket `k`, behind `write_list_.Write`. -/
def afterWrite (w : EventLoop σ) (k : SocketPtr) (s : Socket) : EventLoop σ :=
  if !s.isWritable then (w.setSocket k (s.setWritable true)).markWriteable s.handle
  else w.setSocket k s

/-- No Sockets, nothing registered, between two rounds. -/
def Start (w : EventLoop σ) : Prop :=
  (∀ k, w.sockets k = none) ∧ (∃ size, w.epoll = .init size) ∧ w.poll = .idle ∧ w.stack = []

end EventLoop

/-- A step, with what the environment answers. -/
inductive LoopEvent
  | newClient (k : SocketPtr) (fd : ℤ) (hasHandler : Bool)
  | newServer (k : SocketPtr) (fd : ℤ) (hasHandler : Bool)
  | setPoller (k : SocketPtr) (added : Bool)
  /-- `err` is what `ConnectAsync` returns. -/
  | connect (k : SocketPtr) (err : ℤ) (added : Bool)
  | write (k : SocketPtr) (src : List UInt8)
  | read (k : SocketPtr) (bytes : List UInt8)
  | poll
  | callOut (n : ℤ)
  | epollWait (events : List EpollEvent)
  | check (n : ℤ)
  | pollDone
  | run
  | sysWrite (r : WriteResult)
  | sysRead (r : ReadResult)
  /-- A callback returns. -/
  | ret
  | close
deriving DecidableEq, Repr

/-- One step of the thread, over the pool `P` of its Buffers. -/
inductive LoopStep {σ : Type} (P : ObjectPool σ) : Lts (EventLoop σ) LoopEvent
  /- What other code may do. -/
  | newClient {w : EventLoop σ} {k : SocketPtr} {fd : ℤ} {hasHandler : Bool} {m m' : Memory σ}
      {readList writeList : BufferList} : w.UserRuns → w.sockets k = none →
      BufferList.new P w.mem = .ok (m, readList) → BufferList.new P m = .ok (m', writeList) →
      LoopStep P w (.newClient k fd hasHandler)
        ((w.setMem m').setSocket k (.newClient fd hasHandler readList writeList))
  | newServer {w : EventLoop σ} {k : SocketPtr} {fd : ℤ} {hasHandler : Bool} {m m' : Memory σ}
      {readList writeList : BufferList} : w.UserRuns → w.sockets k = none →
      BufferList.new P w.mem = .ok (m, readList) → BufferList.new P m = .ok (m', writeList) →
      LoopStep P w (.newServer k fd hasHandler)
        ((w.setMem m').setSocket k (.newServer fd hasHandler readList writeList))
  | setPoller {w : EventLoop σ} {k : SocketPtr} {s : Socket} {added : Bool}
      {handle : Option EpollEntryPtr} {epoll : Epoll} : w.UserRuns → w.sockets k = some s →
      s.hasPoller = false → w.epoll.add s.fd k added = (handle, epoll) →
      LoopStep P w (.setPoller k added)
        ((w.setEpoll epoll).setSocket k { s with hasPoller := true, handle := handle })
  | connectAgain {w : EventLoop σ} {k : SocketPtr} {s : Socket} {err : ℤ} {added : Bool} :
      w.UserRuns → w.sockets k = some s → s.type = .client → s.status ≠ .init →
      LoopStep P w (.connect k err added) w
  -- the code drops the handle
  | connect {w : EventLoop σ} {k : SocketPtr} {s : Socket} {added : Bool}
      {handle : Option EpollEntryPtr} {epoll : Epoll} : w.UserRuns → w.sockets k = some s →
      s.type = .client → s.status = .init → w.epoll.add s.fd k added = (handle, epoll) →
      LoopStep P w (.connect k kOK added)
        ((w.setEpoll epoll).setSocket k (s.setStatus .connecting))
  | connectFails {w : EventLoop σ} {k : SocketPtr} {s : Socket} {err : ℤ} {added : Bool} :
      w.UserRuns → w.sockets k = some s → s.type = .client → s.status = .init →
      s.hasHandler = true → err ≠ kOK →
      LoopStep P w (.connect k err added)
        ((w.setSocket k (s.setStatus .connecting)).setStack (.connect k :: w.stack))
  | write {w : EventLoop σ} {k : SocketPtr} {s : Socket} {src : List UInt8} {total : ℕ}
      {m : Memory σ} {writeList : BufferList} : w.UserRuns → w.sockets k = some s →
      s.hasPoller = true →
      BufferList.writeBytes P w.mem s.writeList src = .ok (total, m, writeList) →
      LoopStep P w (.write k src) ((w.setMem m).afterWrite k (s.setWriteList writeList))
  | read {w : EventLoop σ} {k : SocketPtr} {s : Socket} {n total : ℕ} {bytes : List UInt8}
      {m : Memory σ} {readList : BufferList} : w.UserRuns → w.sockets k = some s →
      BufferList.readBytes P w.mem s.readList n = .ok ((total, bytes), m, readList) →
      LoopStep P w (.read k bytes) ((w.setMem m).setSocket k (s.setReadList readList))
  /- `Epoll::Poll`. -/
  | poll {w : EventLoop σ} : w.stack = [] → w.poll = .idle →
      LoopStep P w .poll (w.setPoll (.writeable 0))
  | callOut {w : EventLoop σ} {iter : ℕ} {ee : EpollEntryPtr} {en : EpollEntry} (n : ℤ) :
      w.stack = [] → w.poll = .writeable iter → w.epoll.writeable[iter]? = some ee →
      w.epoll.entry ee = .ok en →
      LoopStep P w (.callOut n)
        ((w.setPoll (.writeable (iter + 1))).setStack [.out en.event (.start n)])
  | epollWait {w : EventLoop σ} {iter : ℕ} (events : List EpollEvent) : w.stack = [] →
      w.poll = .writeable iter → w.epoll.writeable.length ≤ iter →
      (events.length : ℤ) ≤ max w.epoll.size 0 →
      LoopStep P w (.epollWait events)
        ((w.setEpoll { w.epoll with writeable := [] }).setPoll
          (if events = [] then .idle else .events .error events))
  | checkRetired {w : EventLoop σ} {stage : EventStage} {e : EpollEvent} {rest : List EpollEvent}
      {en : EpollEntry} {n : ℤ} : w.stack = [] → w.poll = .events stage (e :: rest) →
      w.epoll.entry e.ptr = .ok en → en.fd = kInvalidFd →
      LoopStep P w (.check n) (w.setPoll (.events .error rest))
  | checkError {w : EventLoop σ} {e : EpollEvent} {rest : List EpollEvent} {en : EpollEntry}
      {n : ℤ} : w.stack = [] → w.poll = .events .error (e :: rest) →
      w.epoll.entry e.ptr = .ok en → en.fd ≠ kInvalidFd →
      LoopStep P w (.check n) ((w.setPoll (.events .input (e :: rest))).setStack
        (if e.events.errOrHup then [.input en.event .start] else []))
  | checkInput {w : EventLoop σ} {e : EpollEvent} {rest : List EpollEvent} {en : EpollEntry}
      {n : ℤ} : w.stack = [] → w.poll = .events .input (e :: rest) →
      w.epoll.entry e.ptr = .ok en → en.fd ≠ kInvalidFd →
      LoopStep P w (.check n) ((w.setPoll (.events .output (e :: rest))).setStack
        (if e.events.input then [.input en.event .start] else []))
  | checkOutput {w : EventLoop σ} {e : EpollEvent} {rest : List EpollEvent} {en : EpollEntry}
      {n : ℤ} : w.stack = [] → w.poll = .events .output (e :: rest) →
      w.epoll.entry e.ptr = .ok en → en.fd ≠ kInvalidFd →
      LoopStep P w (.check n) ((w.setPoll (.events .error rest)).setStack
        (if e.events.output then [.out en.event (.start n)] else []))
  | pollDone {w : EventLoop σ} {stage : EventStage} {epoll : Epoll} : w.stack = [] →
      w.poll = .events stage [] → w.epoll.processRetired = .ok epoll →
      LoopStep P w .pollDone ((w.setEpoll epoll).setPoll .idle)
  /- `Socket::Out`. -/
  | outRun {w : EventLoop σ} {k : SocketPtr} {s s' : Socket} {pc : OutPc} {next : Option OutPc}
      {stack : List Frame} : w.stack = .out k pc :: stack → w.sockets k = some s →
      s.outStep pc = some (s', next) →
      LoopStep P w .run ((w.setSocket k s').setStack ((next.map (.out k)).toList ++ stack))
  | sysWrite {w : EventLoop σ} {k : SocketPtr} {s : Socket} {ret : ℤ} {n : ℕ} {m : Memory σ}
      {writeList : BufferList} {stack : List Frame} : w.stack = .out k (.send ret) :: stack →
      w.sockets k = some s → s.writeList.readableSize ≠ 0 → 0 < n →
      n ≤ s.writeList.readableSize →
      BufferList.readAdvance P w.mem s.writeList n = .ok (m, writeList) →
      LoopStep P w (.sysWrite (.bytes n))
        (((w.setMem m).setSocket k ((s.setWriteList writeList).setLastWrite (.bytes n))).setStack
          (.out k (Socket.afterWrite ret (.bytes n)) :: stack))
  | sysWriteFails {w : EventLoop σ} {k : SocketPtr} {s : Socket} {ret : ℤ} {r : WriteResult}
      {stack : List Frame} : w.stack = .out k (.send ret) :: stack →
      w.sockets k = some s → s.writeList.readableSize ≠ 0 → (∀ n, r ≠ .bytes n) →
      LoopStep P w (.sysWrite r) ((w.setSocket k (s.setLastWrite r)).setStack
        (.out k (Socket.afterWrite ret r) :: stack))
  | outReturn {w : EventLoop σ} {k : SocketPtr} {pc : OutPc} {next : Option OutPc}
      {stack : List Frame} : w.stack = .out k pc :: stack → Socket.outReturn pc = some next →
      LoopStep P w .ret (w.setStack ((next.map (.out k)).toList ++ stack))
  | outClose {w : EventLoop σ} {k : SocketPtr} {s : Socket} {epoll : Epoll} {stack : List Frame} :
      w.stack = .out k .close :: stack → w.sockets k = some s → w.epoll.del s.handle = .ok epoll →
      LoopStep P w .close
        (((w.setEpoll epoll).setSocket k { s with fdClosed := true }).setStack stack)
  /- `Socket::In`. -/
  | inRun {w : EventLoop σ} {k : SocketPtr} {s : Socket} {pc : InPc} {next : Option InPc}
      {stack : List Frame} : w.stack = .input k pc :: stack → w.sockets k = some s →
      s.inStep pc = some next →
      LoopStep P w .run (w.setStack ((next.map (.input k)).toList ++ stack))
  | sysRead {w : EventLoop σ} {k : SocketPtr} {s : Socket} {ret : ℤ} {src : List UInt8}
      {m : Memory σ} {readList : BufferList} {stack : List Frame} :
      w.stack = .input k (.recv ret) :: stack → w.sockets k = some s → src ≠ [] →
      src.length ≤ s.readList.writeableSize →
      BufferList.fill P w.mem s.readList src = .ok (m, readList) →
      LoopStep P w (.sysRead (.bytes src))
        (((w.setMem m).setSocket k (s.setReadList readList)).setStack
          (.input k (Socket.afterRead ret (.bytes src)) :: stack))
  | sysReadFails {w : EventLoop σ} {k : SocketPtr} {ret : ℤ} {r : ReadResult} {stack : List Frame} :
      w.stack = .input k (.recv ret) :: stack → (∀ src, r ≠ .bytes src) →
      LoopStep P w (.sysRead r) (w.setStack (.input k (Socket.afterRead ret r) :: stack))
  | inReturn {w : EventLoop σ} {k : SocketPtr} {pc : InPc} {next : Option InPc}
      {stack : List Frame} : w.stack = .input k pc :: stack → Socket.inReturn pc = some next →
      LoopStep P w .ret (w.setStack ((next.map (.input k)).toList ++ stack))
  | inClose {w : EventLoop σ} {k : SocketPtr} {s : Socket} {epoll : Epoll} {stack : List Frame} :
      w.stack = .input k .close :: stack → w.sockets k = some s → w.epoll.del s.handle = .ok epoll →
      LoopStep P w .close
        (((w.setEpoll epoll).setSocket k { s with fdClosed := true }).setStack stack)
  /- The end of a `Socket::Connect` that has failed. -/
  | connectReturn {w : EventLoop σ} {k : SocketPtr} {s : Socket} {stack : List Frame} :
      w.stack = .connect k :: stack → w.sockets k = some s →
      LoopStep P w .ret ((w.setSocket k (s.setStatus .closed)).setStack stack)

end ServerKit
