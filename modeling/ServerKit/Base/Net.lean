import ServerKit.Core.Socket

/-!
# `base/net.h`, `base/net.cc`: `Listen`, `Accept` and `Send`

The functions run system calls, whose results they are given. What `Listen` and `Accept` change of
the process is `errno` and the table of open descriptors; logging a message changes neither.
-/

namespace ServerKit

/-- What `errno` holds after a system call that has failed. -/
abbrev Errno := { e : ℤ // e ≠ kOK }

/-- The `errno` of the thread, and its open descriptors, with the flag `O_NONBLOCK` of each. -/
structure Process where
  errno : ℤ
  files : ℕ → Option Bool

namespace Process

/-- A system call fails. -/
def setErrno (p : Process) (errno : ℤ) : Process := { p with errno := errno }

/-- A system call returns a new descriptor. -/
def openFd (p : Process) (fd : ℕ) : Process :=
  { p with files := Function.update p.files fd (some false) }

/-- `fcntl(fd, F_SETFL, flags | O_NONBLOCK)` succeeds. -/
def setFlag (p : Process) (fd : ℕ) : Process :=
  { p with files := Function.update p.files fd (some true) }

/-- `close(fd)`. -/
def closeFd (p : Process) (fd : ℕ) : Process :=
  { p with files := Function.update p.files fd none }

@[simp] theorem setErrno_files (p : Process) (errno : ℤ) : (p.setErrno errno).files = p.files := rfl
@[simp] theorem setFlag_files_self (p : Process) (fd : ℕ) :
    (p.setFlag fd).files fd = some true := Function.update_self ..
@[simp] theorem openFd_files_self (p : Process) (fd : ℕ) :
    (p.openFd fd).files fd = some false := Function.update_self ..
@[simp] theorem closeFd_files_self (p : Process) (fd : ℕ) :
    (p.closeFd fd).files fd = none := Function.update_self ..
@[simp] theorem openFd_errno (p : Process) (fd : ℕ) : (p.openFd fd).errno = p.errno := rfl
@[simp] theorem setFlag_errno (p : Process) (fd : ℕ) : (p.setFlag fd).errno = p.errno := rfl

end Process

/-- The results of the two `fcntl` of `setNonBlocking`. -/
structure FcntlCalls where
  getfl : Except Errno Unit
  setfl : Except Errno Unit

/-- `setNonBlocking`: what it returns. -/
def setNonBlocking (p : Process) (fd : ℕ) (calls : FcntlCalls) : ℤ × Process :=
  match calls.getfl with
  | .error e => (e, p.setErrno e)
  | .ok _ =>
    match calls.setfl with
    | .error e => (e, p.setErrno e)
    | .ok _ => (kOK, p.setFlag fd)

/-- The results of the system calls of `Listen`. `inetAton` says that `inet_aton` does not
return `0`. -/
structure ListenCalls where
  socket : Except Errno ℕ
  setsockopt : Except Errno Unit
  fcntl : FcntlCalls
  inetAton : Bool
  bind : Except Errno Unit
  listen : Except Errno Unit

/-- `createListenSocket`: the descriptor, or `*err`, which it writes when it returns `-1`. -/
def createListenSocket (p : Process) (calls : ListenCalls) : Except Errno ℕ × Process :=
  match calls.socket with
  | .error e => (.error e, p.setErrno e)
  | .ok fd =>
    match calls.setsockopt with
    | .error e => (.error e, (p.openFd fd).setErrno e)
    | .ok _ => (.ok fd, p.openFd fd)

/-- `Listen`: what it returns, and `*err`. -/
def listen (p : Process) (calls : ListenCalls) : (ℤ × ℤ) × Process :=
  match createListenSocket p calls with
  | (.error err, p) => ((kError, err), p)
  | (.ok fd, p) =>
    match setNonBlocking p fd calls.fcntl with
    | (ret, p) =>
      if ret ≠ kOK then ((kError, kOK), p.closeFd fd)
      else if !calls.inetAton then ((kError, p.errno), p.closeFd fd)
      else
        match calls.bind with
        | .error e => ((kError, e), (p.setErrno e).closeFd fd)
        | .ok _ =>
          match calls.listen with
          | .error e => ((kError, e), (p.setErrno e).closeFd fd)
          | .ok _ => ((fd, kOK), p)

/-- A result of `::accept`, and for a new connection those of `setNonBlocking`. -/
inductive AcceptResult
  | error (errno : Errno)
  | connection (fd : ℕ) (calls : FcntlCalls)

/-- `Accept`, when `::accept` gives these results and `EAGAIN` behind them: what it returns, and
`*err`. -/
def accept (p : Process) : List AcceptResult → (ℤ × ℤ) × Process × List AcceptResult
  | [] => ((kOK, eAGAIN), p.setErrno eAGAIN, [])
  | .error e :: rest =>
    if isIOTryAgain e then ((kOK, e), p.setErrno e, rest)
    else if e = eINTR then accept (p.setErrno e) rest
    else ((kError, e), p.setErrno e, rest)
  | .connection fd calls :: rest =>
    match setNonBlocking (p.openFd fd) fd calls with
    | (ret, p) => if ret ≠ kOK then ((kError, kOK), p, rest) else ((fd, kOK), p, rest)

/-! ## `Send` -/

/-- A call of `::write`: the Buffer it is pointed into, the offset there, and the count. `ret` is
that of `Send` before the call, and `bytes` what the range holds if it lies in the Buffer. -/
structure WriteCall where
  buffer : BufferPtr
  off : ℕ
  count : ℕ
  ret : ℤ
  bytes : Except Fault (List UInt8)

/-- What `Send` has done: what it returns, `*err`, its calls of `::write`, and the bytes the kernel
has taken. -/
structure Sent (σ : Type) where
  ret : ℤ
  err : ℤ
  calls : List WriteCall
  accepted : List UInt8
  mem : Memory σ
  list : BufferList

namespace Sent

variable {σ : Type}

/-- Adds an earlier call, and the bytes the kernel has taken in it. -/
def after (call : WriteCall) (bytes : List UInt8) (sent : Sent σ) : Sent σ :=
  { sent with calls := call :: sent.calls, accepted := bytes ++ sent.accepted }

/-- `Send` returns behind a call that has failed. -/
def failed (ret err : ℤ) (call : WriteCall) (m : Memory σ) (l : BufferList) : Sent σ :=
  ⟨ret, err, [call], [], m, l⟩

end Sent

/-- The call of `::write` that `Send` makes. -/
def writeCall {σ : Type} (m : Memory σ) (l : BufferList) (ret : ℤ) (buffer : BufferPtr) :
    WriteCall where
  buffer := buffer
  off := l.readInx
  count := l.readableSize
  ret := ret
  bytes := m.copyOut buffer l.readInx l.readableSize

/-- The loop of `Send`, when `::write` gives these results. -/
def sendLoop {σ : Type} (P : ObjectPool σ) (m : Memory σ) (l : BufferList) (ret : ℤ) :
    List WriteResult → Except Fault (Sent σ)
  | [] =>
    if l.readableSize = 0 then .ok ⟨ret, kOK, [], [], m, l⟩ else .error .noReturn
  | r :: results =>
    if l.readableSize = 0 then .ok ⟨ret, kOK, [], [], m, l⟩
    else do
      let buffer ← deref l.read
      let call := writeCall m l ret buffer
      match r with
      | .bytes n =>
        let (bytes, m, l) ← BufferList.drain P m l n
        let sent ← sendLoop P m l (ret + n) results
        return sent.after call bytes
      | .zero errno => return .failed kError errno call m l
      | .error errno =>
        if errno = eINTR then
          let sent ← sendLoop P m l ret results
          return sent.after call []
        else if isIOTryAgain errno then return .failed ret errno call m l
        else return .failed kError errno call m l

/-- `Send`. -/
def send {σ : Type} (P : ObjectPool σ) (m : Memory σ) (l : BufferList)
    (results : List WriteResult) : Except Fault (Sent σ) :=
  sendLoop P m l 0 results

end ServerKit
