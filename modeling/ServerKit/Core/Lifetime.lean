import ServerKit.Core.EventLoop

/-!
# Sockets and a poller that are destroyed

`Socket::~Socket` may run between two rounds and in any callback, also in one of the Socket itself,
and `Epoll::~Epoll` between two rounds. The memory of a destroyed Socket keeps what it held, and is
not given to another.
-/

namespace ServerKit

open Lib

/-- The thread, which of its Sockets and whether its poller have been destroyed, and the history of
the entries: those put into `retired_list_`, and those deleted. -/
structure Lifetime (σ : Type) where
  loop : EventLoop σ
  destroyed : List SocketPtr
  pollerDestroyed : Bool
  retirements : List EpollEntryPtr
  deletions : List EpollEntryPtr

inductive LifeEvent
  | loop (e : LoopEvent)
  /-- A Socket is destroyed. -/
  | destroy (k : SocketPtr)
  | destroyPoller
deriving DecidableEq, Repr

namespace Lifetime

variable {σ : Type}

/-- Nothing has been destroyed. -/
def new (loop : EventLoop σ) : Lifetime σ where
  loop := loop
  destroyed := []
  pollerDestroyed := false
  retirements := []
  deletions := []

/-- The kernel has the entry registered: `Del` has not been called on it, and the descriptor of its
Socket has not been closed. -/
def InKernel (w : Lifetime σ) (ee : EpollEntryPtr) : Prop :=
  ∃ en, w.loop.epoll.entries ee = some en ∧ en.fd ≠ kInvalidFd ∧
    ∀ s, w.loop.sockets en.event = some s → s.fdClosed = false

/-- Other code uses no destroyed Socket. The kernel reports events of registered entries only, and
does not register the file descriptor -1. -/
def Allowed (w : Lifetime σ) : LoopEvent → Prop
  | .setPoller k added | .connect k _ added =>
    k ∉ w.destroyed ∧ (added = true → ∀ s, w.loop.sockets k = some s → s.fd ≠ kInvalidFd)
  | .write k _ | .read k _ => k ∉ w.destroyed
  | .epollWait events => ∀ e ∈ events, w.InKernel e.ptr
  | _ => True

/-- The entry of the handle of a Socket. -/
def handle (w : Lifetime σ) (k : SocketPtr) : Option EpollEntryPtr :=
  (w.loop.sockets k).bind Socket.handle

theorem handle_eq {w : Lifetime σ} {k : SocketPtr} {s : Socket} (hk : w.loop.sockets k = some s) :
    w.handle k = s.handle := by
  unfold handle
  rw [hk]
  rfl

/-- The entries that a step puts into `retired_list_`. The destructor calls `Del`, and then
`Socket::close`, which calls it again. -/
def retires (w : Lifetime σ) : LifeEvent → List EpollEntryPtr
  | .loop .close =>
    match w.loop.stack with
    | .out k _ :: _ | .input k _ :: _ => (w.handle k).toList
    | _ => []
  | .destroy k => (w.handle k).toList ++ (w.handle k).toList
  | _ => []

/-- The entries that a step deletes. -/
def deletes (w : Lifetime σ) : LifeEvent → List EpollEntryPtr
  | .loop .pollDone | .destroyPoller => w.loop.epoll.retired
  | _ => []

/-- A step takes the thread to `loop`. -/
def next (w : Lifetime σ) (e : LifeEvent) (loop : EventLoop σ) : Lifetime σ :=
  { w with
    loop := loop
    retirements := w.retirements ++ w.retires e
    deletions := w.deletions ++ w.deletes e }

end Lifetime

/-- One step, over the pool `P` of Buffers. -/
inductive LifeStep {σ : Type} (P : ObjectPool σ) : Lts (Lifetime σ) LifeEvent
  | loop {w : Lifetime σ} {e : LoopEvent} {loop : EventLoop σ} : w.pollerDestroyed = false →
      w.Allowed e → LoopStep P w.loop e loop → LifeStep P w (.loop e) (w.next (.loop e) loop)
  -- the code calls `Del` without looking whether there is a poller
  | destroy {w : Lifetime σ} {k : SocketPtr} {s : Socket} {epoll epoll' : Epoll} :
      w.pollerDestroyed = false → w.loop.UserRuns → k ∉ w.destroyed →
      w.loop.sockets k = some s → s.hasPoller = true → w.loop.epoll.del s.handle = .ok epoll →
      epoll.del s.handle = .ok epoll' →
      LifeStep P w (.destroy k)
        { w.next (.destroy k)
            ((w.loop.setEpoll epoll').setSocket k { s with fdClosed := true }) with
          destroyed := k :: w.destroyed }
  | destroyPoller {w : Lifetime σ} {epoll : Epoll} : w.pollerDestroyed = false →
      w.loop.stack = [] → w.loop.poll = .idle → w.loop.epoll.processRetired = .ok epoll →
      LifeStep P w .destroyPoller
        { w.next .destroyPoller (w.loop.setEpoll epoll) with pollerDestroyed := true }

end ServerKit
