import ServerKit.Core.EventLoop
import ServerKit.Lib.StdVector

/-!
# `ep_events_`

`epoll_wait` writes the events of a batch to the beginning of the block of `ep_events_`, and
`Epoll::Poll` goes through them there, while the callbacks that it runs may register file
descriptors and `Epoll::Add` may resize the vector.
-/

namespace ServerKit

open Lib

/-- An `epoll_event` in memory: `data.ptr`, which may be NULL, and `events`. -/
structure RawEvent where
  ptr : Option EpollEntryPtr
  events : EventMask
deriving DecidableEq, Repr

/-- A value-initialised `epoll_event`. -/
def RawEvent.zero : RawEvent := ⟨none, ⟨false, false, false⟩⟩

/-- What the kernel writes for an event. -/
def EpollEvent.raw (e : EpollEvent) : RawEvent := ⟨some e.ptr, e.events⟩

/-- The bit that a check looks at. -/
def EventStage.bit : EventStage → EventMask → Bool
  | .error, m => m.errOrHup
  | .input, m => m.input
  | .output, m => m.output

/-- An `Epoll` with `ep_events_`. -/
structure EventPoller where
  epoll : Epoll
  epEvents : StdVector RawEvent

/-- A call of a function of `Epoll` in a callback. -/
inductive PollerCall
  | add (fd : ℤ) (event : SocketPtr) (added : Bool)
  | del (handle : Option EpollEntryPtr)
  | markWriteable (handle : Option EpollEntryPtr)
deriving DecidableEq, Repr

namespace EventPoller

/-- `Epoll::Epoll` and `Epoll::Init`. -/
def init (g : VectorAlloc) (size : ℕ) : EventPoller where
  epoll := .init size
  epEvents := StdVector.empty.reserve g size

/-- `Epoll::Add`. `resize` throws when `fd + kIncrPollSize` has become negative. -/
def add (g : VectorAlloc) (s : EventPoller) (fd : ℤ) (event : SocketPtr) (added : Bool) :
    Except Fault (Option EpollEntryPtr × EventPoller) :=
  let (handle, epoll) := s.epoll.add fd event added
  if added = true ∧ s.epoll.size < fd then
    if 2147483648 ≤ fd + kIncrPollSize then .error .badAlloc
    else .ok (handle, ⟨epoll, s.epEvents.resize g .zero epoll.size.toNat⟩)
  else .ok (handle, ⟨epoll, s.epEvents⟩)

/-- One call of a callback. -/
def call (g : VectorAlloc) (s : EventPoller) : PollerCall → Except Fault EventPoller
  | .add fd event added => do
    let (_, s) ← s.add g fd event added
    return s
  | .del handle => do
    let epoll ← s.epoll.del handle
    return ⟨epoll, s.epEvents⟩
  | .markWriteable handle => .ok ⟨s.epoll.markWriteable handle, s.epEvents⟩

/-- The calls of a callback. -/
def run (g : VectorAlloc) (s : EventPoller) : List PollerCall → Except Fault EventPoller
  | [] => .ok s
  | c :: calls => do
    let s ← s.call g c
    s.run g calls

/-- `*epev`. -/
def deref (s : EventPoller) (epev : VectorPtr) : Except Fault RawEvent :=
  match s.epEvents.deref epev with
  | some raw => .ok raw
  | none => .error .dangling

/-- What a part of the loop of `Epoll::Poll` leaves: the poller, the calls that callbacks to come
will make, and what has been handled. -/
structure Handled (α : Type) where
  poller : EventPoller
  calls : List (List PollerCall)
  handled : α

/-- The checks of one element, which `epev` reads. Each callback makes the next of `calls`, and none
once these are used up; `handled` are the Events called, with the check that has called them. -/
def checks (g : VectorAlloc) (epev : EventPoller → Except Fault RawEvent) (ee : EpollEntryPtr)
    (event : SocketPtr) : List EventStage → EventPoller → List (List PollerCall) →
    Except Fault (Handled (List (SocketPtr × EventStage)))
  | [], s, calls => .ok ⟨s, calls, []⟩
  | stage :: stages, s, calls => do
    let en ← s.epoll.entry ee
    if en.fd = kInvalidFd then return ⟨s, calls, []⟩
    else
      let raw ← epev s
      if stage.bit raw.events then
        let s ← s.run g (calls.headD [])
        let rest ← checks g epev ee event stages s calls.tail
        return { rest with handled := (event, stage) :: rest.handled }
      else checks g epev ee event stages s calls

/-- The body of the loop of `Epoll::Poll`. -/
def handle (g : VectorAlloc) (s : EventPoller) (epev : EventPoller → Except Fault RawEvent)
    (calls : List (List PollerCall)) :
    Except Fault (Handled (List (SocketPtr × EventStage))) := do
  let raw ← epev s
  match raw.ptr with
  | none => .error .nullPointer
  | some ee =>
    let en ← s.epoll.entry ee
    checks g epev ee en.event [.error, .input, .output] s calls

/-- The loop of `Epoll::Poll`, with `num` elements to go from index `i` on. `elem s i` is `epev`,
set when the poller is `s`: what it reads whenever it is read. -/
def pollEvents (g : VectorAlloc) (elem : EventPoller → ℕ → EventPoller → Except Fault RawEvent) :
    ℕ → ℕ → EventPoller → List (List PollerCall) →
    Except Fault (Handled (List (List (SocketPtr × EventStage))))
  | 0, _, s, calls => .ok ⟨s, calls, []⟩
  | num + 1, i, s, calls => do
    let first ← s.handle g (elem s i) calls
    let rest ← pollEvents g elem num (i + 1) first.poller first.calls
    return { rest with handled := first.handled :: rest.handled }

/-- `epev = &(ep_events_[i])`. -/
def inVector (s : EventPoller) (i : ℕ) : EventPoller → Except Fault RawEvent :=
  fun s' => s'.deref (s.epEvents.pointer i)

/-- The event that the kernel has reported at index `i`, whatever becomes of `ep_events_`. -/
def reported (events : List EpollEvent) (_ : EventPoller) (i : ℕ) :
    EventPoller → Except Fault RawEvent :=
  fun _ =>
    match events[i]? with
    | some e => .ok e.raw
    | none => .error .outOfBounds

/-- `writeable_list_.clear()`, and `epoll_wait`, which writes `events`. -/
def epollWait (s : EventPoller) (events : List EpollEvent) : EventPoller where
  epoll := { s.epoll with writeable := [] }
  epEvents := s.epEvents.store (events.map EpollEvent.raw)

/-- `Epoll::Poll`, behind its first loop. -/
def poll (g : VectorAlloc) (s : EventPoller) (events : List EpollEvent)
    (calls : List (List PollerCall)) :
    Except Fault (EventPoller × List (List (SocketPtr × EventStage))) :=
  if events = [] then .ok (s.epollWait events, [])
  else do
    let r ← pollEvents g inVector events.length 0 (s.epollWait events) calls
    let epoll ← r.poller.epoll.processRetired
    return (⟨epoll, r.poller.epEvents⟩, r.handled)

end EventPoller

/-- Other code calls the poller, also in `Out` of an Event in the first loop of `Epoll::Poll`, or
there is a batch. -/
inductive EpollCall
  | call (c : PollerCall)
  | poll (events : List EpollEvent) (calls : List (List PollerCall))
      (handled : List (List (SocketPtr × EventStage)))
deriving DecidableEq, Repr

/-- One step. The kernel reports at most `size_` events, of registered entries. -/
inductive EventPollerStep (g : VectorAlloc) : Lts EventPoller EpollCall
  | call {s s' : EventPoller} {c : PollerCall} : s.call g c = .ok s' →
      EventPollerStep g s (.call c) s'
  | poll {s s' : EventPoller} {events : List EpollEvent} {calls : List (List PollerCall)}
      {handled : List (List (SocketPtr × EventStage))} : (events.length : ℤ) ≤ s.epoll.size →
      (∀ e ∈ events, s.epoll.entries e.ptr ≠ none) →
      s.poll g events calls = .ok (s', handled) →
      EventPollerStep g s (.poll events calls handled) s'

end ServerKit
