import ServerKit.Util.Time
import ServerKit.Lib.Decimal
import ServerKit.Lib.Lts
import Mathlib.Logic.Function.Basic

/-!
# `core/timer_thread.h`, `core/timer_thread.cc`

The timer thread writes the time into one of `kTimeSlots` slots after the other and then lets two
pointers point there, through which any thread reads it, without a lock. A load or a store of a word
or of a byte is one step; steps take effect in the order of the program.
-/

namespace ServerKit

open Lib

/-- Number of cached time slots. -/
def kTimeSlots : ℕ := 64

/-- `sizeof("2019/01/01 00:00:00.000")`. -/
def kLogTimeStringLength : ℕ := 24

/-- A `struct timeval` of `gettimeofday`, as long as the minutes since 1970 are an `int`. -/
structure Timeval where
  sec : ℕ
  usec : ℕ
  sec_lt : sec < 60 * 2147483648
  usec_lt : usec < 1000000
deriving DecidableEq, Repr

/-- `%wd`, or `%0wd` where `c` is `'0'`. -/
def formatInt (c : UInt8) (w : ℕ) (n : ℤ) : List UInt8 :=
  if 0 ≤ n then padded c w n.toNat
  else if c = 0x30 then 0x2d :: padded c (w - 1) n.natAbs
  else List.replicate (w - ((decimal n.natAbs).length + 1)) c ++ 0x2d :: decimal n.natAbs

/-- `"%4d/%02d/%02d %02d:%02d:%02d.%03d"`, with the arguments of `updateTime`. -/
def logTimeFormat (tim : Tm) (msec : ℤ) : List UInt8 :=
  formatInt 0x20 4 (tim.year + 1900) ++ 0x2f :: (formatInt 0x30 2 (tim.mon + 1) ++
    0x2f :: (formatInt 0x30 2 tim.mday ++ 0x20 :: (formatInt 0x30 2 tim.hour ++
      0x3a :: (formatInt 0x30 2 tim.min ++ 0x3a :: (formatInt 0x30 2 tim.sec ++
        0x2e :: formatInt 0x30 3 msec)))))

/-- What `snprintf(buf, size, ...)` writes to `buf`, for a `size` that is not 0. -/
def snprintf (size : ℕ) (text : List UInt8) : List UInt8 := text.take (size - 1) ++ [0]

namespace Timeval

/-- `sec * 1000 + msec`. -/
def ms (tv : Timeval) : ℕ := tv.sec * 1000 + tv.usec / 1000

/-- What `updateTime` writes to `logStr`. -/
def logTime (tv : Timeval) : Except IntFault (List UInt8) := do
  let tim ← localtime tv.sec
  return snprintf kLogTimeStringLength (logTimeFormat tim (tv.usec / 1000 : ℕ))

end Timeval

/-- Where the timer thread is in `TimerThread::updateTime`. -/
inductive UpdatePc
  /-- Not in `updateTime`. -/
  | idle
  /-- Behind `index_ = (index_ + 1) % kTimeSlots`. -/
  | indexed
  /-- Behind `gettimeofday`. -/
  | stamped (tv : Timeval)
  /-- In `snprintf`, which has written `k` bytes of `text`. -/
  | writing (text : List UInt8) (k : ℕ)
  /-- Behind `cached_msec_ = tmsec`. -/
  | published
deriving DecidableEq, Repr

/-- Where a reader is. `begun` is how many updates had read the clock when it loaded its pointer. -/
inductive ReaderPc
  | idle
  /-- In `GetNowMs`, behind the load of `cached_msec_`. -/
  | msec (slot begun : ℕ)
  /-- It reads the string of `GetNowLogtimeString`, and has read these bytes. -/
  | str (slot begun : ℕ) (bytes : List UInt8)
deriving DecidableEq, Repr

/-- The timer thread and its readers. `updates` is the history of `gettimeofday`. -/
structure TimerThread where
  index : ℕ
  cachedMsecs : ℕ → ℕ
  cachedLogTimeStrs : ℕ → Fin kLogTimeStringLength → UInt8
  /-- The slot that `cached_msec_` points to. -/
  cachedMsec : ℕ
  /-- The slot that `cached_log_time_str_` points to. -/
  cachedLogTimeStr : ℕ
  pc : UpdatePc
  updates : List Timeval
  reader : ℕ → ReaderPc

namespace TimerThread

def setPc (s : TimerThread) (pc : UpdatePc) : TimerThread := { s with pc := pc }

def setReader (s : TimerThread) (i : ℕ) (pc : ReaderPc) : TimerThread :=
  { s with reader := Function.update s.reader i pc }

/-- Writes the slot `index_` of `cached_msecs_`. -/
def storeMsec (s : TimerThread) (msec : ℕ) : TimerThread :=
  { s with cachedMsecs := Function.update s.cachedMsecs s.index msec }

/-- Writes a byte of the slot `index_` of `cached_log_time_strs_`. -/
def storeByte (s : TimerThread) (k : Fin kLogTimeStringLength) (b : UInt8) : TimerThread :=
  { s with
    cachedLogTimeStrs := Function.update s.cachedLogTimeStrs s.index
      (Function.update (s.cachedLogTimeStrs s.index) k b) }

/-- Behind `TimerThread::TimerThread`, whose `updateTime` has read `tv` and written `text`. -/
structure Constructed (s : TimerThread) (tv : Timeval) (text : List UInt8) : Prop where
  logTime : tv.logTime = .ok text
  index : s.index = 1
  msec : s.cachedMsecs 1 = tv.ms
  str : ∀ k, some (s.cachedLogTimeStrs 1 k) = text[k.val]?
  cachedMsec : s.cachedMsec = 1
  cachedLogTimeStr : s.cachedLogTimeStr = 1
  pc : s.pc = .idle
  updates : s.updates = [tv]
  reader : ∀ i, s.reader i = .idle

end TimerThread

/-- A step of the timer thread or of a reader, named by its number. -/
inductive TimerThreadEvent
  | nextIndex
  | getTimeOfDay (tv : Timeval)
  | storeMsec
  | storeByte
  | publishMsec
  | publishStr
  | loadMsec (i : ℕ)
  /-- `GetNowMs` returns `msec`. -/
  | readMsec (i msec : ℕ)
  | loadStr (i : ℕ)
  | readByte (i : ℕ) (b : UInt8)
  /-- The reader is done with the string. -/
  | done (i : ℕ)
deriving DecidableEq, Repr

inductive TimerThreadStep : Lts TimerThread TimerThreadEvent
  | nextIndex {s : TimerThread} : s.pc = .idle →
      TimerThreadStep s .nextIndex { s with index := (s.index + 1) % kTimeSlots, pc := .indexed }
  | getTimeOfDay {s : TimerThread} (tv : Timeval) : s.pc = .indexed →
      TimerThreadStep s (.getTimeOfDay tv)
        { s with updates := s.updates ++ [tv], pc := .stamped tv }
  | storeMsec {s : TimerThread} {tv : Timeval} {text : List UInt8} : s.pc = .stamped tv →
      tv.logTime = .ok text →
      TimerThreadStep s .storeMsec ((s.storeMsec tv.ms).setPc (.writing text 0))
  | storeByte {s : TimerThread} {text : List UInt8} {k : Fin kLogTimeStringLength} {b : UInt8} :
      s.pc = .writing text k → text[k.val]? = some b →
      TimerThreadStep s .storeByte ((s.storeByte k b).setPc (.writing text (k + 1)))
  | publishMsec {s : TimerThread} {text : List UInt8} : s.pc = .writing text text.length →
      TimerThreadStep s .publishMsec { s with cachedMsec := s.index, pc := .published }
  | publishStr {s : TimerThread} : s.pc = .published →
      TimerThreadStep s .publishStr { s with cachedLogTimeStr := s.index, pc := .idle }
  | loadMsec {s : TimerThread} {i : ℕ} : s.reader i = .idle →
      TimerThreadStep s (.loadMsec i) (s.setReader i (.msec s.cachedMsec s.updates.length))
  | readMsec {s : TimerThread} {i slot begun : ℕ} : s.reader i = .msec slot begun →
      TimerThreadStep s (.readMsec i (s.cachedMsecs slot)) (s.setReader i .idle)
  | loadStr {s : TimerThread} {i : ℕ} : s.reader i = .idle →
      TimerThreadStep s (.loadStr i) (s.setReader i (.str s.cachedLogTimeStr s.updates.length []))
  | readByte {s : TimerThread} {i slot begun : ℕ} {bytes : List UInt8}
      {k : Fin kLogTimeStringLength} : s.reader i = .str slot begun bytes → k = bytes.length →
      TimerThreadStep s (.readByte i (s.cachedLogTimeStrs slot k))
        (s.setReader i (.str slot begun (bytes ++ [s.cachedLogTimeStrs slot k])))
  | done {s : TimerThread} {i slot begun : ℕ} {bytes : List UInt8} :
      s.reader i = .str slot begun bytes → TimerThreadStep s (.done i) (s.setReader i .idle)

end ServerKit
