import ServerKit.Core.EventLoop

/-!
# Rounds of `Epoll::Poll` over any Events

`Epoll::Poll` calls `In` and `Out` of Events, which may do with the poller what they like: register
Events, retire entries, their own or others, destroy the Events of retired entries, and mark entries
writeable. Between two rounds other code may do the same. Events are named by their addresses.
-/

namespace ServerKit

open Lib

/-- The poller, where it is in `Poll`, whether it is in `In` or `Out` of an Event, and the Events
that have been destroyed. -/
structure PollRounds where
  epoll : Epoll
  poll : PollPc
  running : Bool
  destroyed : List SocketPtr

/-- A step of a round, or of other code. -/
inductive PollEvent
  | add (fd : ℤ) (event : SocketPtr) (added : Bool)
  | del (ee : EpollEntryPtr)
  | markWriteable (ee : EpollEntryPtr)
  /-- An Event is destroyed. -/
  | destroy (event : SocketPtr)
  | poll
  /-- `Poll` calls `In` or `Out` through an entry. -/
  | call (ee : EpollEntryPtr)
  | epollWait (events : List EpollEvent)
  /-- A check of an event that calls nothing. -/
  | check
  /-- `In` or `Out` returns. -/
  | ret
  | pollDone
deriving DecidableEq, Repr

/-- The entry is allocated, and `Del` has not been called on it. -/
def Epoll.Live (e : Epoll) (ee : EpollEntryPtr) : Prop :=
  ∃ en, e.entries ee = some en ∧ en.fd ≠ kInvalidFd

namespace PollRounds

def init (size : ℤ) : PollRounds where
  epoll := .init size
  poll := .idle
  running := false
  destroyed := []

/-- Other code runs: between two rounds, or in `In` or `Out` of an Event. -/
def UserRuns (w : PollRounds) : Prop := w.running = true ∨ w.poll = .idle

def setEpoll (w : PollRounds) (epoll : Epoll) : PollRounds := { w with epoll := epoll }

def setPoll (w : PollRounds) (poll : PollPc) : PollRounds := { w with poll := poll }

/-- `In` or `Out` of an Event begins, or returns. -/
def setRunning (w : PollRounds) (running : Bool) : PollRounds := { w with running := running }

/-- The part of `writeable_list_` that `Poll` has not come to yet. -/
def pending (w : PollRounds) : List EpollEntryPtr :=
  match w.poll with
  | .writeable iter => w.epoll.writeable.drop iter
  | .idle | .events _ _ => w.epoll.writeable

end PollRounds

/-- One step. The kernel reports events of registered entries only, and does not register the file
descriptor -1. -/
inductive PollStep : Lts PollRounds PollEvent
  /- Other code. -/
  | add {w : PollRounds} {fd : ℤ} {event : SocketPtr} {added : Bool}
      {handle : Option EpollEntryPtr} {epoll : Epoll} : w.UserRuns → event ∉ w.destroyed →
      (added = true → fd ≠ kInvalidFd) → w.epoll.add fd event added = (handle, epoll) →
      PollStep w (.add fd event added) (w.setEpoll epoll)
  | del {w : PollRounds} {ee : EpollEntryPtr} {epoll : Epoll} : w.UserRuns →
      w.epoll.del (some ee) = .ok epoll → PollStep w (.del ee) (w.setEpoll epoll)
  | markWriteable {w : PollRounds} {ee : EpollEntryPtr} : w.UserRuns → w.epoll.Live ee →
      PollStep w (.markWriteable ee) (w.setEpoll (w.epoll.markWriteable (some ee)))
  | destroy {w : PollRounds} {event : SocketPtr} : w.UserRuns →
      (∀ ee en, w.epoll.entries ee = some en → en.event = event → en.fd = kInvalidFd) →
      PollStep w (.destroy event) { w with destroyed := event :: w.destroyed }
  /- `Epoll::Poll`. -/
  | poll {w : PollRounds} : w.running = false → w.poll = .idle →
      PollStep w .poll (w.setPoll (.writeable 0))
  | callOut {w : PollRounds} {iter : ℕ} {ee : EpollEntryPtr} : w.running = false →
      w.poll = .writeable iter → w.epoll.writeable[iter]? = some ee →
      PollStep w (.call ee) ((w.setPoll (.writeable (iter + 1))).setRunning true)
  | epollWait {w : PollRounds} {iter : ℕ} (events : List EpollEvent) : w.running = false →
      w.poll = .writeable iter → w.epoll.writeable.length ≤ iter →
      (events.length : ℤ) ≤ max w.epoll.size 0 → (∀ e ∈ events, w.epoll.Live e.ptr) →
      PollStep w (.epollWait events)
        ((w.setEpoll { w.epoll with writeable := [] }).setPoll
          (if events = [] then .idle else .events .error events))
  | checkRetired {w : PollRounds} {stage : EventStage} {e : EpollEvent} {rest : List EpollEvent}
      {en : EpollEntry} : w.running = false → w.poll = .events stage (e :: rest) →
      w.epoll.entry e.ptr = .ok en → en.fd = kInvalidFd →
      PollStep w .check (w.setPoll (.events .error rest))
  | checkError {w : PollRounds} {e : EpollEvent} {rest : List EpollEvent} {en : EpollEntry} :
      w.running = false → w.poll = .events .error (e :: rest) → w.epoll.entry e.ptr = .ok en →
      en.fd ≠ kInvalidFd →
      PollStep w (if e.events.errOrHup then .call e.ptr else .check)
        ((w.setPoll (.events .input (e :: rest))).setRunning e.events.errOrHup)
  | checkInput {w : PollRounds} {e : EpollEvent} {rest : List EpollEvent} {en : EpollEntry} :
      w.running = false → w.poll = .events .input (e :: rest) → w.epoll.entry e.ptr = .ok en →
      en.fd ≠ kInvalidFd →
      PollStep w (if e.events.input then .call e.ptr else .check)
        ((w.setPoll (.events .output (e :: rest))).setRunning e.events.input)
  | checkOutput {w : PollRounds} {e : EpollEvent} {rest : List EpollEvent} {en : EpollEntry} :
      w.running = false → w.poll = .events .output (e :: rest) → w.epoll.entry e.ptr = .ok en →
      en.fd ≠ kInvalidFd →
      PollStep w (if e.events.output then .call e.ptr else .check)
        ((w.setPoll (.events .error rest)).setRunning e.events.output)
  | ret {w : PollRounds} : w.running = true → PollStep w .ret (w.setRunning false)
  | pollDone {w : PollRounds} {stage : EventStage} {epoll : Epoll} : w.running = false →
      w.poll = .events stage [] → w.epoll.processRetired = .ok epoll →
      PollStep w .pollDone ((w.setEpoll epoll).setPoll .idle)

end ServerKit
