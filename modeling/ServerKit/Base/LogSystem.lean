import ServerKit.Base.Log
import ServerKit.Base.LogThread

/-!
# `LogMessage::~LogMessage` beside the log thread

Any number of threads log messages, beside the log thread. The destructor of a `LogMessage` hands
its `LogMessageData` over by `SendLog`; that of a FATAL message then appends the call stack, calls
`Flush(true)`, which runs `iterList` on both lists without `mutex_`, and aborts. Each
`LogMessageData` has a number of its own. `output` appends its bytes to the file, where a record
stands with that number; what follows an access to one that has been deleted is left open, and the
access noted in `dangling`.
-/

namespace ServerKit

open Lib

namespace LogSystem

/-- Where a thread is in `LogThread::Flush(true)`. `second` tells `write_list_` from `read_list_`,
which is first. -/
inductive FlushPc
  /-- Before the call of `iterList`. -/
  | call (second : Bool)
  /-- In the loop of `iterList`, over the list with index `k`; `iter` is the place of the next
  message. -/
  | iter (second : Bool) (k iter : ℕ)
  | done
deriving DecidableEq, Repr

/-- Where a thread is with its `LogMessage`. `d` is the number of `data_`. -/
inductive Pc
  | outside
  /-- Before the destructor. -/
  | streamed (d : ℕ) (level : LogLevel)
  /-- `SendLog(data_)`. -/
  | sending (d : ℕ) (level : LogLevel)
  /-- Before `Stream() << stack`. -/
  | appending (d : ℕ)
  | flushing (d : ℕ) (stack : List UInt8) (pc : FlushPc)
  | aborted (d : ℕ) (stack : List UInt8)
deriving DecidableEq, Repr

end LogSystem

/-- The log thread with its lists, the `LogMessageData`s that are allocated, where the threads are,
the records of the file, and the accesses to deleted data: by a thread, or by the log thread. -/
structure LogSystem (ι : Type) where
  thread : LogThread ι ℕ
  data : ℕ → Option LogMessageData
  next : ℕ
  pc : ι → LogSystem.Pc
  file : List (ℕ × List UInt8)
  dangling : List (Option ι × ℕ)
  exited : Bool

/-- A step, with the thread where it has one. -/
inductive LogSystemEvent (ι : Type)
  /-- A `LogMessage` is constructed and streamed. -/
  | streamed (i : ι) (text : ℕ → UInt8) (header : List UInt8) (strings : List (List UInt8))
      (level : LogLevel)
  | finish (i : ι)
  /-- A step of `Send` or of the log thread. -/
  | log (e : LogEvent ι ℕ)
  /-- `Stream() << stack`. -/
  | append (i : ι) (stack : List UInt8)
  | flushCall (i : ι)
  | flushOutput (i : ι)
  | flushClear (i : ι)
  | abort (i : ι)

/-- The steps of the log thread but `output`. -/
def LogEvent.ofLogger {ι M : Type} : LogEvent ι M → Bool
  | .timeout | .test | .loggerLock | .swap | .loggerUnlock | .clear => true
  | _ => false

namespace LogSystem

variable {ι : Type}

/-- No message has been logged. -/
def new (ι : Type) : LogSystem ι where
  thread := .new ι ℕ
  data := fun _ => none
  next := 0
  pc := fun _ => .outside
  file := []
  dangling := []
  exited := false

def setThread (s : LogSystem ι) (thread : LogThread ι ℕ) :
    LogSystem ι := { s with thread := thread }

/-- `new LogMessageData()`, with what is streamed into it. -/
def addData (s : LogSystem ι) (m : LogMessageData) : LogSystem ι :=
  { s with data := Function.update s.data s.next (some m), next := s.next + 1 }

/-- The thread `i` writes into the data `d`. -/
def writeData (s : LogSystem ι) (i : ι) (d : ℕ)
    (write : LogMessageData → Except Fault LogMessageData) : Except Fault (LogSystem ι) :=
  match s.data d with
  | none => .ok { s with dangling := s.dangling ++ [(some i, d)] }
  | some m => do
    let m ← write m
    return { s with data := Function.update s.data d (some m) }

/-- `output(data); delete data;` of `iterList`. -/
def outputData (s : LogSystem ι) (i : Option ι) (d : ℕ) : LogSystem ι :=
  match s.data d with
  | none => { s with dangling := s.dangling ++ [(i, d)] }
  | some m =>
    { s with data := Function.update s.data d none, file := s.file ++ [(d, m.slice)] }

/-- The index of a list of `Flush(true)`. -/
def flushList (s : LogSystem ι) (second : Bool) : ℕ :=
  if second then s.thread.writeList else s.thread.readList

/-- The destructor behind `SendLog`. -/
def afterSend (d : ℕ) (level : LogLevel) : Pc := if level = .fatal then .appending d else .outside

variable [DecidableEq ι]

def setPc (s : LogSystem ι) (i : ι) (pc : Pc) : LogSystem ι :=
  { s with pc := Function.update s.pc i pc }

/-- One step of one thread, while the process runs. -/
inductive Move : Lts (LogSystem ι) (LogSystemEvent ι)
  | streamed {s : LogSystem ι} {i : ι} {text : ℕ → UInt8} {header : List UInt8}
      {strings : List (List UInt8)} {level : LogLevel} {m : LogMessageData} : s.pc i = .outside →
      LogMessage.streamed text header strings = .ok m →
      Move s (.streamed i text header strings level)
        ((s.addData m).setPc i (.streamed s.next level))
  | finish {s s' : LogSystem ι} {i : ι} {d : ℕ} {level : LogLevel} : s.pc i = .streamed d level →
      s.writeData i d LogMessage.finish = .ok s' →
      Move s (.finish i) (s'.setPc i (.sending d level))
  | lock {s : LogSystem ι} {i : ι} {d : ℕ} {level : LogLevel} {thread : LogThread ι ℕ} :
      s.pc i = .sending d level → LogStep s.thread (.lock i d) thread →
      Move s (.log (.lock i d)) (s.setThread thread)
  | push {s : LogSystem ι} {i : ι} {d : ℕ} {level : LogLevel} {thread : LogThread ι ℕ} :
      s.pc i = .sending d level → LogStep s.thread (.push i d) thread →
      Move s (.log (.push i d)) (s.setThread thread)
  | unlock {s : LogSystem ι} {i : ι} {d : ℕ} {level : LogLevel} {thread : LogThread ι ℕ} :
      s.pc i = .sending d level → LogStep s.thread (.unlock i) thread →
      Move s (.log (.unlock i)) ((s.setThread thread).setPc i (afterSend d level))
  | logger {s : LogSystem ι} {e : LogEvent ι ℕ} {thread : LogThread ι ℕ} : e.ofLogger = true →
      LogStep s.thread e thread → Move s (.log e) (s.setThread thread)
  | output {s : LogSystem ι} {iter d : ℕ} {thread : LogThread ι ℕ} : s.thread.pc = .iter iter →
      (s.thread.logList s.thread.readList)[iter]? = some d → LogStep s.thread .output thread →
      Move s (.log .output) ((s.outputData none d).setThread thread)
  | append {s s' : LogSystem ι} {i : ι} {d : ℕ} {stack : List UInt8} : s.pc i = .appending d →
      s.writeData i d (·.put stack) = .ok s' →
      Move s (.append i stack) (s'.setPc i (.flushing d stack (.call false)))
  | flushCall {s : LogSystem ι} {i : ι} {d : ℕ} {stack : List UInt8} {second : Bool} :
      s.pc i = .flushing d stack (.call second) →
      Move s (.flushCall i) (s.setPc i (.flushing d stack (.iter second (s.flushList second) 0)))
  | flushOutput {s : LogSystem ι} {i : ι} {d : ℕ} {stack : List UInt8} {second : Bool}
      {k iter d' : ℕ} : s.pc i = .flushing d stack (.iter second k iter) →
      (s.thread.logList k)[iter]? = some d' →
      Move s (.flushOutput i)
        ((s.outputData (some i) d').setPc i (.flushing d stack (.iter second k (iter + 1))))
  | flushClear {s : LogSystem ι} {i : ι} {d : ℕ} {stack : List UInt8} {second : Bool}
      {k iter : ℕ} : s.pc i = .flushing d stack (.iter second k iter) →
      (s.thread.logList k).length ≤ iter →
      Move s (.flushClear i) ((s.setThread (s.thread.setList k [])).setPc i
        (.flushing d stack (if second then .done else .call true)))
  | abort {s : LogSystem ι} {i : ι} {d : ℕ} {stack : List UInt8} :
      s.pc i = .flushing d stack .done →
      Move s (.abort i) { s.setPc i (.aborted d stack) with exited := true }

end LogSystem

/-- The steps of the system. `abort()` ends the process. -/
def LogSystemStep {ι : Type} [DecidableEq ι] : Lts (LogSystem ι) (LogSystemEvent ι) :=
  fun s e s' => s.exited = false ∧ LogSystem.Move s e s'

end ServerKit
