import ServerKit.Base.SpinLock

/-!
# `base/thread.h`, `base/thread.cc`

One thread calls `Start` and `Join` of a `Thread`, in any order and as often as it likes. The calls
of `Start` are numbered; call `n` has its `SpinLock` and its `threadEntry` on its stack, and the
thread it creates, which has the number `n` too, runs `Thread::main`. A load or a store is one step,
and the plain variables are read and written in the order of the program.
-/

namespace ServerKit

open Lib

inductive ThreadState
  | none
  | running
  | stopped
deriving DecidableEq, Repr

/-- Where a thread is in `Thread::main`. -/
inductive ThreadMain
  /-- At the loads of `entry->lock` and `entry->thread`. -/
  | entry
  /-- It names itself. -/
  | setName
  /-- At `thread->state_ = kThreadRunning`. -/
  | setState
  /-- At `lock->UnLock()`. -/
  | unLock
  /-- In `Run`, or in `callback_`. -/
  | run
  | ended
deriving DecidableEq, Repr

/-- Where the thread that calls `Start` and `Join` is. -/
inductive ThreadCaller
  | outside
  /-- In a `Lock` of call `n`: the first one, or the second one with what `pthread_create` has
  returned. -/
  | lock (n : ℕ) (ret : Option ℤ) (pc : SpinLock.Pc)
  /-- At `pthread_create`. -/
  | create (n : ℕ)
  /-- In `pthread_create`, which has created the thread. -/
  | creating (n : ℕ)
  /-- At the `if` of `Join`. -/
  | join
deriving DecidableEq, Repr

/-- A `Thread` object with the threads created for it. -/
structure ThreadObject where
  name : List UInt8
  state : ThreadState
  /-- `tid_`: 0, or the successor of the number of the thread. -/
  tid : ℕ
  caller : ThreadCaller
  /-- The calls of `Start` so far. -/
  starts : ℕ
  /-- `lock_` of the `SpinLock` of a call. -/
  lock : ℕ → ℤ
  main : ℕ → Option ThreadMain
  /-- `gPerThreadInfo.name` of a thread. -/
  threadName : ℕ → List UInt8

namespace ThreadObject

/-- Behind the constructor of `Thread`. `"main"` is the name of a thread until it names itself. -/
def new (name : List UInt8) : ThreadObject where
  name := name
  state := .none
  tid := 0
  caller := .outside
  starts := 0
  lock := fun _ => 0
  main := fun _ => none
  threadName := fun _ => [0x6d, 0x61, 0x69, 0x6e]

def setCaller (s : ThreadObject) (caller : ThreadCaller) : ThreadObject :=
  { s with caller := caller }

def setLock (s : ThreadObject) (n : ℕ) (lock : ℤ) : ThreadObject :=
  { s with lock := Function.update s.lock n lock }

def setMain (s : ThreadObject) (n : ℕ) (pc : ThreadMain) : ThreadObject :=
  { s with main := Function.update s.main n (some pc) }

def setState (s : ThreadObject) (state : ThreadState) : ThreadObject := { s with state := state }

/-- `gPerThreadInfo.name = thread->name_`. -/
def nameThread (s : ThreadObject) (n : ℕ) : ThreadObject :=
  { s with threadName := Function.update s.threadName n s.name }

/-- `Running`. -/
def isRunning (s : ThreadObject) : Bool := s.state = .running

end ThreadObject

inductive ThreadEvent
  /-- `Start` is called. -/
  | start
  | exchange (old : ℤ)
  | load (v : ℤ)
  | pause
  /-- The first `Lock` returns. -/
  | locked
  /-- `pthread_create` creates the thread. -/
  | create
  /-- `pthread_create` returns 0, with `tid_` written. -/
  | created
  /-- `pthread_create` fails and returns `err`. It may have written to `tid_`. -/
  | createFails (err : ℤ) (tid : ℕ)
  /-- `Start` returns. -/
  | started (ret : ℤ)
  /-- `state_ = kThreadStopped` in `Join`. -/
  | join
  /-- `Join` returns. -/
  | joined
  /-- The thread `n` reads the entry, then names itself, sets the state, unlocks and ends. -/
  | readEntry (n : ℕ)
  | setName (n : ℕ)
  | setState (n : ℕ)
  | unLock (n : ℕ)
  /-- The thread calls `Running`, which returns `b`. -/
  | running (n : ℕ) (b : Bool)
  | ended (n : ℕ)
deriving DecidableEq, Repr

/-- One step of the caller or of a thread. -/
inductive ThreadObjectStep : Lts ThreadObject ThreadEvent
  | start {s : ThreadObject} : s.caller = .outside →
      ThreadObjectStep s .start
        { s.setLock s.starts 0 with
          caller := .lock s.starts none .exchange
          starts := s.starts + 1 }
  | exchange {s : ThreadObject} {n : ℕ} {ret : Option ℤ} {pc next : SpinLock.Pc} :
      s.caller = .lock n ret pc → SpinLock.afterExchange (s.lock n) pc = some next →
      ThreadObjectStep s (.exchange (s.lock n)) ((s.setCaller (.lock n ret next)).setLock n 1)
  | load {s : ThreadObject} {n : ℕ} {ret : Option ℤ} {v : ℤ} {pc next : SpinLock.Pc} :
      s.caller = .lock n ret pc → SpinLock.afterLoad v pc = some next →
      ThreadObjectStep s (.load v) (s.setCaller (.lock n ret next))
  | pause {s : ThreadObject} {n : ℕ} {ret : Option ℤ} {pc next : SpinLock.Pc} :
      s.caller = .lock n ret pc → SpinLock.pause pc = some next →
      ThreadObjectStep s .pause (s.setCaller (.lock n ret next))
  | locked {s : ThreadObject} {n : ℕ} : s.caller = .lock n none .acquired →
      ThreadObjectStep s .locked (s.setCaller (.create n))
  | create {s : ThreadObject} {n : ℕ} : s.caller = .create n →
      ThreadObjectStep s .create ((s.setCaller (.creating n)).setMain n .entry)
  | created {s : ThreadObject} {n : ℕ} : s.caller = .creating n →
      ThreadObjectStep s .created
        { s with tid := n + 1, caller := .lock n (some 0) .exchange }
  | createFails {s : ThreadObject} {n : ℕ} {err : ℤ} (tid : ℕ) : s.caller = .create n → err ≠ 0 →
      ThreadObjectStep s (.createFails err tid)
        { s with tid := tid, caller := .lock n (some err) .exchange }
  | started {s : ThreadObject} {n : ℕ} {ret : ℤ} : s.caller = .lock n (some ret) .acquired →
      ThreadObjectStep s (.started ret) (s.setCaller .outside)
  | join {s : ThreadObject} : s.caller = .outside →
      ThreadObjectStep s .join ((s.setCaller .join).setState .stopped)
  | joinedNone {s : ThreadObject} : s.caller = .join → s.tid = 0 →
      ThreadObjectStep s .joined (s.setCaller .outside)
  | joined {s : ThreadObject} {n : ℕ} : s.caller = .join → s.tid = n + 1 →
      s.main n = some .ended →
      ThreadObjectStep s .joined { s with tid := 0, caller := .outside }
  | readEntry {s : ThreadObject} {n : ℕ} : s.main n = some .entry →
      ThreadObjectStep s (.readEntry n) (s.setMain n .setName)
  | setName {s : ThreadObject} {n : ℕ} : s.main n = some .setName →
      ThreadObjectStep s (.setName n) ((s.setMain n .setState).nameThread n)
  | setState {s : ThreadObject} {n : ℕ} : s.main n = some .setState →
      ThreadObjectStep s (.setState n) ((s.setMain n .unLock).setState .running)
  | unLock {s : ThreadObject} {n : ℕ} : s.main n = some .unLock →
      ThreadObjectStep s (.unLock n) ((s.setMain n .run).setLock n 0)
  | running {s : ThreadObject} {n : ℕ} : s.main n = some .run →
      ThreadObjectStep s (.running n s.isRunning) s
  | ended {s : ThreadObject} {n : ℕ} : s.main n = some .run →
      ThreadObjectStep s (.ended n) (s.setMain n .ended)

end ServerKit
