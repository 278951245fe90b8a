import ServerKit.Lib.Lts
import Mathlib.Data.Nat.Notation
import Mathlib.Data.Int.Notation
import Mathlib.Logic.Function.Basic

/-!
# `base/spin_lock.h`, `base/spin_lock.cc`

Any number of threads run `Lock` and `UnLock` of one `SpinLock`. An atomic operation on `lock_` is
one step. `exchange` meets the latest value of `lock_`; a relaxed load may return one that is no
longer the latest, so here it returns any.
-/

namespace ServerKit

open Lib

namespace SpinLock

def kYieldProcessorTries : ℕ := 1000

def kYieldThreadTries : ℕ := 10

/-- Where a thread is in `Lock`. `count` and `yieldThreadCount` are the local variables of
`lockSlow`. -/
inductive Pc
  | outside
  /-- At the exchange of `Lock`. -/
  | exchange
  /-- At the head of the `for` loop. -/
  | spin (count yieldThreadCount : ℕ)
  | spinLoad (count yieldThreadCount : ℕ)
  | spinExchange (count yieldThreadCount : ℕ)
  /-- Behind the `for` loop. -/
  | yield (yieldThreadCount : ℕ)
  /-- At the condition of the inner `while`. -/
  | whileLoad (yieldThreadCount : ℕ)
  /-- At the condition of the outer `while`. -/
  | whileExchange (yieldThreadCount : ℕ)
  /-- An exchange has returned 0, and `Lock` is about to return. -/
  | acquired
  /-- `Lock` has returned. -/
  | locked
deriving DecidableEq, Repr

/-- Behind `lock_.exchange(true)`, which has returned `old`. -/
def afterExchange (old : ℤ) : Pc → Option Pc
  | .exchange => some (if old = 0 then .acquired else .spin 0 0)
  | .spinExchange count y => some (if old = 0 then .acquired else .spin (count + 1) y)
  | .whileExchange y => some (if old = 0 then .acquired else .spin 0 y)
  | _ => none

/-- Behind `lock_.load()`, which has returned `v`. -/
def afterLoad (v : ℤ) : Pc → Option Pc
  | .spinLoad count y => some (if v = 0 then .spinExchange count y else .spin (count + 1) y)
  | .whileLoad y => some (if v = 0 then .whileExchange y else .spin 0 y)
  | _ => none

/-- What `lockSlow` does between two operations on `lock_`: it pauses, yields or sleeps. -/
def pause : Pc → Option Pc
  | .spin count y => some (if count < kYieldProcessorTries then .spinLoad count y else .yield y)
  | .yield y => some (if y < kYieldThreadTries then .whileLoad (y + 1) else .whileLoad y)
  | _ => none

end SpinLock

/-- A `SpinLock` and the threads that use it. -/
structure SpinLock (ι : Type) where
  lock : ℤ
  pc : ι → SpinLock.Pc

/-- A step, with the thread that takes it. -/
inductive SpinEvent (ι : Type)
  /-- The thread calls `Lock`. -/
  | call (i : ι)
  | exchange (i : ι) (old : ℤ)
  | load (i : ι) (v : ℤ)
  | pause (i : ι)
  /-- `Lock` returns. -/
  | ret (i : ι)
  /-- The store of `UnLock`. -/
  | unLock (i : ι)
deriving DecidableEq, Repr

namespace SpinLock

variable {ι : Type}

/-- A new lock, with every thread outside. -/
def new (ι : Type) : SpinLock ι where
  lock := 0
  pc := fun _ => .outside

variable [DecidableEq ι]

def setPc (s : SpinLock ι) (i : ι) (pc : Pc) : SpinLock ι :=
  { s with pc := Function.update s.pc i pc }

def setLock (s : SpinLock ι) (lock : ℤ) : SpinLock ι := { s with lock := lock }

end SpinLock

/-- One step of one thread. -/
inductive SpinStep {ι : Type} [DecidableEq ι] : Lts (SpinLock ι) (SpinEvent ι)
  | call {s : SpinLock ι} {i : ι} : s.pc i = .outside →
      SpinStep s (.call i) (s.setPc i .exchange)
  | exchange {s : SpinLock ι} {i : ι} {next : SpinLock.Pc} :
      SpinLock.afterExchange s.lock (s.pc i) = some next →
      SpinStep s (.exchange i s.lock) ((s.setPc i next).setLock 1)
  | load {s : SpinLock ι} {i : ι} {v : ℤ} {next : SpinLock.Pc} :
      SpinLock.afterLoad v (s.pc i) = some next → SpinStep s (.load i v) (s.setPc i next)
  | pause {s : SpinLock ι} {i : ι} {next : SpinLock.Pc} :
      SpinLock.pause (s.pc i) = some next → SpinStep s (.pause i) (s.setPc i next)
  | ret {s : SpinLock ι} {i : ι} : s.pc i = .acquired → SpinStep s (.ret i) (s.setPc i .locked)
  | unLock {s : SpinLock ι} {i : ι} : s.pc i = .locked →
      SpinStep s (.unLock i) ((s.setPc i .outside).setLock 0)

end ServerKit
