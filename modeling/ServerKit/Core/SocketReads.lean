import ServerKit.Core.Socket

/-!
# `Socket::In` on a script of `::read`

The steps of `Socket::In` of `ServerKit.Core.Socket`, run one after another against results of
`::read` written down in advance. Callbacks return at once.
-/

namespace ServerKit

open Lib

/-- A result of `::read` that `Recv` goes on behind: bytes, or `EINTR`. -/
inductive ReadAnswer
  | data (src : List UInt8)
  | interrupted
deriving DecidableEq, Repr

/-- An `errno` that is an error of the connection. -/
abbrev FatalErrno := { e : ℤ // e ≠ kOK ∧ e ≠ eINTR ∧ isIOTryAgain e = false }

/-- How a script ends. -/
inductive ReadEnd
  | again
  | eof
  | fatal (errno : FatalErrno)

/-- What `Socket::In` does to others: `handler_->OnError(err)`, `handler_->OnRead()`, and
`Socket::close()`. -/
inductive InEffect
  | onError (err : ℤ)
  | onRead
  | close
deriving DecidableEq, Repr

/-- A Socket in `Socket::In`: the thread's memory and `errno`, and what `::read` will answer. The
end of a script answers again when asked again. -/
structure Reading (σ : Type) where
  mem : Memory σ
  sock : Socket
  errno : ℤ
  answers : List ReadAnswer
  last : ReadEnd
  effects : List InEffect

namespace Reading

variable {σ : Type} (P : ObjectPool σ)

/-- `Socket::In` is called. -/
def start (mem : Memory σ) (sock : Socket) (errno : ℤ) (answers : List ReadAnswer)
    (last : ReadEnd) : Reading σ where
  mem := mem
  sock := sock
  errno := errno
  answers := answers
  last := last
  effects := []

def did (w : Reading σ) (e : InEffect) : Reading σ := { w with effects := w.effects ++ [e] }

/-- `::read`; neither bytes nor an end of file change `errno`. -/
def read (w : Reading σ) : Except Fault (ReadResult × Reading σ) :=
  match w.answers with
  | .data src :: answers => do
    let (mem, readList) ← BufferList.fill P w.mem w.sock.readList src
    return (.bytes src,
      { w with mem := mem, sock := w.sock.setReadList readList, answers := answers })
  | .interrupted :: answers => .ok (.error eINTR, { w with errno := eINTR, answers := answers })
  | [] =>
    match w.last with
    | .again => .ok (.error eAGAIN, { w with errno := eAGAIN })
    | .eof => .ok (.zero w.errno, w)
    | .fatal e => .ok (.error e, { w with errno := e })

/-- One step, and where `In` is then unless it has returned. -/
def next (w : Reading σ) : InPc → Except Fault (Reading σ × Option InPc)
  | .recv ret => do
    let (r, w) ← w.read P
    return (w, some (Socket.afterRead ret r))
  | .onError err => .ok (w.did (.onError err), (Socket.inReturn (.onError err)).join)
  | .onRead => .ok (w.did .onRead, (Socket.inReturn .onRead).join)
  | .close => .ok (w.did .close, none)
  | pc =>
    match w.sock.inStep pc with
    | some pc => .ok (w, pc)
    | none => .error .assertion

/-- `Socket::In` from some point on, with the steps it may still make. -/
def in_ (w : Reading σ) : ℕ → InPc → Except Fault (Reading σ)
  | 0, _ => .error .noReturn
  | fuel + 1, pc => do
    let (w, pc) ← w.next P pc
    match pc with
    | none => return w
    | some pc => in_ w fuel pc

end Reading

end ServerKit
