import ServerKit.Lib.Lts
import ServerKit.Lib.Multimap
import ServerKit.Lib.Outcome
import ServerKit.Lib.Word
import Mathlib.Algebra.Group.Int.Defs
import Mathlib.Logic.Function.Basic

/-!
# `core/poller.h`, `core/poller.cc`

The timers of a `Poller`. A callback may call `AddTimer` and `CancelTimer`, so `executeTimers` is
given what each callback it runs will do. What the code does to Events is returned in order: it
stores ids in them, runs their `Timeout`, and deletes them with the entries of their timers.
-/

namespace ServerKit

open Lib

/-- What can go wrong while the code below runs. -/
inductive TimerFault
  /-- A deleted `TimerEntry`, or the iterator of an erased element, has been used. -/
  | dangling
  /-- The end has been dereferenced or erased. -/
  | atEnd
  /-- A loop never ends. -/
  | noReturn
deriving DecidableEq, Repr

/-- An `Event*`. -/
abbrev EventPtr := ℕ

/-- A `TimerEntry*`. -/
abbrev EntryPtr := ℕ

inductive TimerType
  | kTimerOnce
  | kTimerPermanent
deriving DecidableEq, Repr

/-- `Poller::TimerEntry`; times are `uint64_t` milliseconds. -/
structure TimerEntry where
  timeout : ℕ
  expire : ℕ
  event : EventPtr
  id : ℕ
  t : TimerType
deriving DecidableEq, Repr

/-- An `int` as a `uint64_t`. -/
def uint64OfInt (n : ℤ) : ℕ := (n % 2 ^ 64).toNat

/-- A `uint64_t` as an `int`. -/
def intOfUint64 (n : ℕ) : ℤ := Int.bmod n (2 ^ 32)

def kDefaultTimeout : ℤ := 100

/-- A `Poller`: `timers_`, `timer_ids_`, `max_timer_id_` and `now_ms_`; and the entries that have
been allocated and not deleted, with the address of the next. -/
structure Poller where
  timers : Multimap ℕ EntryPtr
  timerIds : ℕ → Option EntryPtr
  maxTimerId : ℕ
  nowMs : ℕ
  entries : EntryPtr → Option TimerEntry
  nextEntry : EntryPtr

/-- What the code does to an Event. -/
inductive TimerEffect
  | setTimerId (event : EventPtr) (id : ℕ)
  | timeout (event : EventPtr)
  | delete (event : EventPtr)
deriving DecidableEq, Repr

/-- A call a callback may make. -/
inductive TimerCall
  | addTimer (currentMs : ℕ) (timeout : ℤ) (event : EventPtr) (t : TimerType)
  | cancelTimer (id : ℕ)
deriving DecidableEq, Repr

namespace Poller

/-- `Poller::Poller`, which does not initialise `now_ms_`. -/
def new (nowMs : ℕ) : Poller where
  timers := .empty
  timerIds := fun _ => none
  maxTimerId := 0
  nowMs := nowMs
  entries := fun _ => none
  nextEntry := 0

/-- `*p`. -/
def entry (s : Poller) (p : EntryPtr) : Except TimerFault TimerEntry :=
  match s.entries p with
  | some e => .ok e
  | none => .error .dangling

/-- `*iter`, for an iterator of `timers_` that is not the end. -/
def node (s : Poller) (i : ℕ) : Except TimerFault (Multimap.Node ℕ EntryPtr) :=
  match s.timers.get i with
  | some n => .ok n
  | none => .error .dangling

/-- `++iter`. -/
def next (s : Poller) (i : ℕ) : Except TimerFault (Option ℕ) :=
  match s.timers.next i with
  | some pos => .ok pos
  | none => .error .dangling

/-- `timers_.erase(iter)`. -/
def eraseTimer (s : Poller) (i : ℕ) : Except TimerFault Poller :=
  match s.timers.erase i with
  | some timers => .ok { s with timers := timers }
  | none => .error .dangling

/-- `timers_.insert(TimerMap::value_type(expire, entry))`. -/
def insertTimer (s : Poller) (expire : ℕ) (p : EntryPtr) : Poller :=
  { s with timers := s.timers.insert expire p }

/-- `timer_ids_.erase(id)`. -/
def eraseId (s : Poller) (id : ℕ) : Poller :=
  { s with timerIds := Function.update s.timerIds id none }

/-- `delete entry`; its destructor deletes the Event. -/
def deleteEntry (s : Poller) (p : EntryPtr) : Poller :=
  { s with entries := Function.update s.entries p none }

/-- `new TimerEntry`. -/
def newEntry (s : Poller) (e : TimerEntry) : Poller :=
  { s with entries := Function.update s.entries s.nextEntry (some e), nextEntry := s.nextEntry + 1 }

/-- `Poller::AddTimer`, when `CurrentMs()` is `currentMs`: the id of the new timer. -/
def addTimer (s : Poller) (currentMs : ℕ) (timeout : ℤ) (event : EventPtr) (t : TimerType) :
    ℕ × Poller × List TimerEffect :=
  let expire := wordAdd currentMs (uint64OfInt timeout)
  let id := wordAdd s.maxTimerId 1
  let p := s.nextEntry
  let s := { s with maxTimerId := id }
  let s := s.newEntry
    { timeout := uint64OfInt timeout, expire := expire, event := event, id := id, t := t }
  let s := s.insertTimer expire p
  (id, { s with timerIds := Function.update s.timerIds id (some p) }, [.setTimerId event id])

/-- The loop of `Poller::CancelTimer`, from the iterator `pos` up to `upper`: where it stops. -/
def findTimer (s : Poller) (id : ℕ) (upper : Option ℕ) :
    ℕ → Option ℕ → Except TimerFault (Option ℕ)
  | 0, _ => .error .noReturn
  | fuel + 1, pos =>
    if pos = upper then .ok pos
    else
      match pos with
      | none => .error .atEnd
      | some i => do
        let n ← s.node i
        let e ← s.entry n.val
        if e.id = id then .ok pos
        else
          let pos ← s.next i
          findTimer s id upper fuel pos

/-- `Poller::CancelTimer`. -/
def cancelTimer (s : Poller) (id : ℕ) : Except TimerFault (Poller × List TimerEffect) :=
  match s.timerIds id with
  | none => .ok (s, [])
  | some p => do
    let entry ← s.entry p
    let pos ← s.findTimer id (s.timers.upperBound entry.expire) (s.timers.nodes.length + 1)
      (s.timers.lowerBound entry.expire)
    match pos with
    | none => .error .atEnd
    | some i =>
      let s ← s.eraseTimer i
      return ((s.eraseId id).deleteEntry p, [.delete entry.event])

/-- One call of a callback. -/
def call (s : Poller) : TimerCall → Except TimerFault (Poller × List TimerEffect)
  | .addTimer currentMs timeout event t => .ok (s.addTimer currentMs timeout event t).2
  | .cancelTimer id => s.cancelTimer id

/-- The calls of a callback. -/
def run (s : Poller) : List TimerCall → Except TimerFault (Poller × List TimerEffect)
  | [] => .ok (s, [])
  | c :: calls => do
    let (s, effects) ← s.call c
    let (s, more) ← s.run calls
    return (s, effects ++ more)

/-- What the first loop of `Poller::executeTimers` has done: `res`, and `del_timers`. -/
structure Fired where
  res : ℤ
  delTimers : List ℕ
  poller : Poller
  effects : List TimerEffect

/-- The first loop of `Poller::executeTimers`, from the iterator `iter` on, when the callbacks it
runs make the calls `calls`, and none once these are used up. -/
def fireTimers : ℕ → Poller → Option ℕ → List (List TimerCall) → Except TimerFault Fired
  | 0, _, _, _ => .error .noReturn
  | _ + 1, s, none, _ => .ok ⟨kDefaultTimeout, [], s, []⟩
  | fuel + 1, s, some i, calls => do
    let n ← s.node i
    if s.nowMs < n.key then .ok ⟨intOfUint64 (wordSub n.key s.nowMs), [], s, []⟩
    else
      let e ← s.entry n.val
      let (s, effects) ← s.run (calls.headD [])
      let iter ← s.next i
      let rest ← fireTimers fuel s iter calls.tail
      return { rest with
        delTimers := i :: rest.delTimers
        effects := .timeout e.event :: effects ++ rest.effects }

/-- One iteration of the second loop of `Poller::executeTimers`. -/
def expireTimer (s : Poller) (i : ℕ) : Except TimerFault (Poller × List TimerEffect) := do
  let n ← s.node i
  let s ← s.eraseTimer i
  let e ← s.entry n.val
  match e.t with
  | .kTimerOnce => return ((s.eraseId e.id).deleteEntry n.val, [.delete e.event])
  | .kTimerPermanent => return (s.insertTimer (wordAdd s.nowMs e.timeout) n.val, [])

/-- The second loop of `Poller::executeTimers`. -/
def expireTimers (s : Poller) : List ℕ → Except TimerFault (Poller × List TimerEffect)
  | [] => .ok (s, [])
  | i :: delTimers => do
    let (s, effects) ← s.expireTimer i
    let (s, more) ← s.expireTimers delTimers
    return (s, effects ++ more)

/-- `Poller::executeTimers`. The first loop makes no more iterations than there are elements to
begin with or added by the callbacks. -/
def executeTimers (s : Poller) (calls : List (List TimerCall)) :
    Except TimerFault (ℤ × Poller × List TimerEffect) :=
  if s.timers.nodes = [] then .ok (kDefaultTimeout, s, [])
  else do
    let fired ←
      fireTimers (s.timers.nodes.length + calls.flatten.length + 1) s s.timers.begin_ calls
    let (s, effects) ← fired.poller.expireTimers fired.delTimers
    return (fired.res, s, fired.effects ++ effects)

end Poller

/-- A call, with what it returns and does to Events. -/
inductive TimerEvent
  | addTimer (currentMs : ℕ) (timeout : ℤ) (event : EventPtr) (t : TimerType) (id : ℕ)
      (effects : List TimerEffect)
  | cancelTimer (id : ℕ) (effects : List TimerEffect)
  | executeTimers (now : ℕ) (calls : List (List TimerCall)) (res : ℤ) (effects : List TimerEffect)
deriving DecidableEq, Repr

/-- One call. `now_ms_` is read from the clock before `executeTimers`. -/
inductive PollerStep : Lts Poller TimerEvent
  | addTimer {s s' : Poller} {currentMs : ℕ} {timeout : ℤ} {event : EventPtr} {t : TimerType}
      {id : ℕ} {effects : List TimerEffect} :
      s.addTimer currentMs timeout event t = (id, s', effects) →
      PollerStep s (.addTimer currentMs timeout event t id effects) s'
  | cancelTimer {s s' : Poller} {id : ℕ} {effects : List TimerEffect} :
      s.cancelTimer id = .ok (s', effects) → PollerStep s (.cancelTimer id effects) s'
  | executeTimers {s s' : Poller} {now : ℕ} {calls : List (List TimerCall)} {res : ℤ}
      {effects : List TimerEffect} :
      Poller.executeTimers { s with nowMs := now } calls = .ok (res, s', effects) →
      PollerStep s (.executeTimers now calls res effects) s'

end ServerKit
