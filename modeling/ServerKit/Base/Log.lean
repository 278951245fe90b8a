import Mathlib.Logic.Function.Basic
import ServerKit.Base.Buffer

/-!
# `base/log.h`, `base/log.cc`

`std::streambuf` copies what is streamed into the put area until that is full, and calls `overflow`
for each further byte. Offsets are into `text_`, which is not initialised.
-/

namespace ServerKit

def kMaxLogMessageLen : ℕ := 30000

/-- `LogLevel`. -/
inductive LogLevel
  | debug
  | info
  | warn
  | error
  | fatal
deriving DecidableEq, Repr

/-- `LogStreamBuf`: where its put area begins, is being written, and ends. -/
structure LogStreamBuf where
  pbase : ℕ
  pptr : ℕ
  epptr : ℕ
deriving DecidableEq, Repr

namespace LogStreamBuf

/-- `LogStreamBuf::LogStreamBuf`. -/
def new (buf len : ℕ) : LogStreamBuf := ⟨buf, buf, buf + len - 2⟩

def pcount (s : LogStreamBuf) : ℕ := s.pptr - s.pbase

/-- `overflow`, which is not `EOF`, so that the streaming goes on. -/
def overflow (ch : UInt8) : UInt8 := ch

end LogStreamBuf

/-- `LogMessageData`. -/
structure LogMessageData where
  text : ℕ → UInt8
  stream : LogStreamBuf

namespace LogMessageData

/-- `LogMessageData::LogMessageData`, with what the memory of `text_` holds. -/
def new (text : ℕ → UInt8) : LogMessageData := ⟨text, .new 0 kMaxLogMessageLen⟩

/-- A write to `text_`. -/
def write (d : LogMessageData) (i : ℕ) (c : UInt8) : Except Fault LogMessageData :=
  if i < kMaxLogMessageLen + 1 then .ok { d with text := Function.update d.text i c }
  else .error .outOfBounds

/-- `sputc`: the byte goes to the put area, or to `overflow`. -/
def sputc (d : LogMessageData) (c : UInt8) : Except Fault LogMessageData := do
  if d.stream.pptr < d.stream.epptr then
    let d ← d.write d.stream.pptr c
    return { d with stream.pptr := d.stream.pptr + 1 }
  else
    let _ := LogStreamBuf.overflow c
    return d

/-- `Stream() << s`. -/
def put (d : LogMessageData) (s : List UInt8) : Except Fault LogMessageData := s.foldlM sputc d

/-- The `Slice` of `LogThread::output`. -/
def slice (d : LogMessageData) : List UInt8 :=
  (List.range d.stream.pcount).map fun i => d.text (d.stream.pbase + i)

end LogMessageData

namespace LogMessage

/-- `LogMessage::LogMessage`, which streams the level, the thread, the time, the file and the
line. -/
def new (text : ℕ → UInt8) (header : List UInt8) : Except Fault LogMessageData :=
  (LogMessageData.new text).put header

/-- A message with everything that is streamed into it, up to its destructor. -/
def streamed (text : ℕ → UInt8) (header : List UInt8) (strings : List (List UInt8)) :
    Except Fault LogMessageData := do
  strings.foldlM LogMessageData.put (← new text header)

/-- `LogMessage::finish`. -/
def finish (d : LogMessageData) : Except Fault LogMessageData := do
  let d ← d.put [10]
  d.write d.stream.pcount 0

end LogMessage

end ServerKit
