import ServerKit.Lib.Lts
import Mathlib.Data.Nat.Notation
import Mathlib.Logic.Function.Basic

/-!
# `base/log_thread.h`, `base/log_thread.cc`

Any number of threads run `LogThread::Send`, and the log thread runs `LogThread::Timeout`. What a
thread does while it holds `mutex_`, and each test, output and `clear` of the log thread, is a step.
Messages go to `outputs` in place of the file.
-/

namespace ServerKit

open Lib

namespace LogThread

/-- Who holds `mutex_`. -/
inductive Holder (ι : Type)
  | sender (i : ι)
  | logger
deriving DecidableEq, Repr

/-- Where a thread is in `Send`. -/
inductive SendPc (M : Type)
  | outside
  | locked (data : M)
  /-- `write_list_->push_back(data)` has been done. -/
  | pushed
deriving DecidableEq, Repr

/-- Where the log thread is in `Timeout`. -/
inductive Pc
  | outside
  | test
  | lock
  | swap
  | unlock
  /-- In the loop of `iterList`; `iter` is the place of the next message in the list. -/
  | iter (iter : ℕ)
deriving DecidableEq, Repr

end LogThread

/-- `LogThread`, and where its threads are. The pointers `write_list_` and `read_list_` are indices
into `log_list_`. -/
structure LogThread (ι M : Type) where
  logList : ℕ → List M
  writeList : ℕ
  readList : ℕ
  writeIndex : ℕ
  mutex : Option (LogThread.Holder ι)
  sender : ι → LogThread.SendPc M
  pc : LogThread.Pc
  outputs : List M

/-- A step, with the thread and the message where it has one. -/
inductive LogEvent (ι M : Type)
  /-- `Send(data)` of the thread takes the mutex. -/
  | lock (i : ι) (data : M)
  | push (i : ι) (data : M)
  | unlock (i : ι)
  | timeout
  | test
  | loggerLock
  | swap
  | loggerUnlock
  | output
  | clear
deriving DecidableEq, Repr

namespace LogThread

variable {ι M : Type}

/-- `LogThread::LogThread`. -/
def new (ι M : Type) : LogThread ι M where
  logList := fun _ => []
  writeList := 0
  readList := 1
  writeIndex := 0
  mutex := none
  sender := fun _ => .outside
  pc := .outside
  outputs := []

def setMutex (s : LogThread ι M) (mutex : Option (Holder ι)) : LogThread ι M :=
  { s with mutex := mutex }

def setPc (s : LogThread ι M) (pc : Pc) : LogThread ι M := { s with pc := pc }

/-- Writes the list at an index of `log_list_`. -/
def setList (s : LogThread ι M) (k : ℕ) (l : List M) : LogThread ι M :=
  { s with logList := Function.update s.logList k l }

/-- `output`. -/
def addOutput (s : LogThread ι M) (data : M) : LogThread ι M :=
  { s with outputs := s.outputs ++ [data] }

/-- The exchange of the two lists in `Timeout`. -/
def swapLists (s : LogThread ι M) : LogThread ι M :=
  let s := { s with readList := s.writeIndex }
  let s := { s with writeIndex := (s.writeIndex + 1) % 2 }
  { s with writeList := s.writeIndex }

section Senders

variable [DecidableEq ι]

def setSender (s : LogThread ι M) (i : ι) (pc : SendPc M) : LogThread ι M :=
  { s with sender := Function.update s.sender i pc }

end Senders

end LogThread

/-- One step of one thread. -/
inductive LogStep {ι M : Type} [DecidableEq ι] : Lts (LogThread ι M) (LogEvent ι M)
  | lock {s : LogThread ι M} {i : ι} {data : M} : s.sender i = .outside → s.mutex = none →
      LogStep s (.lock i data) ((s.setMutex (some (.sender i))).setSender i (.locked data))
  | push {s : LogThread ι M} {i : ι} {data : M} : s.sender i = .locked data →
      LogStep s (.push i data)
        ((s.setList s.writeList (s.logList s.writeList ++ [data])).setSender i .pushed)
  | unlock {s : LogThread ι M} {i : ι} : s.sender i = .pushed →
      LogStep s (.unlock i) ((s.setMutex none).setSender i .outside)
  | timeout {s : LogThread ι M} : s.pc = .outside → LogStep s .timeout (s.setPc .test)
  | test {s : LogThread ι M} : s.pc = .test →
      LogStep s .test (s.setPc (if (s.logList s.readList).isEmpty then .lock else .iter 0))
  | loggerLock {s : LogThread ι M} : s.pc = .lock → s.mutex = none →
      LogStep s .loggerLock ((s.setMutex (some .logger)).setPc .swap)
  | swap {s : LogThread ι M} : s.pc = .swap → LogStep s .swap (s.swapLists.setPc .unlock)
  | loggerUnlock {s : LogThread ι M} : s.pc = .unlock →
      LogStep s .loggerUnlock ((s.setMutex none).setPc (.iter 0))
  | output {s : LogThread ι M} {iter : ℕ} {data : M} : s.pc = .iter iter →
      (s.logList s.readList)[iter]? = some data →
      LogStep s .output ((s.addOutput data).setPc (.iter (iter + 1)))
  | clear {s : LogThread ι M} {iter : ℕ} : s.pc = .iter iter →
      (s.logList s.readList).length ≤ iter →
      LogStep s .clear ((s.setList s.readList []).setPc .outside)

end ServerKit
