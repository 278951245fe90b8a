import ServerKit.Core.Epoll

/-!
# `core/socket.h`, `core/socket.cc`, and `Recv` and `Send` of `base/net.cc`

`Socket::In` and `Socket::Out` run system calls and the callbacks of a `DataHandler`, which may use
any Socket. They are cut at these calls: `outStep` and `inStep` are what the code does from one
point to the next, and the steps of `ServerKit.Core.EventLoop` are what it does there.
-/

namespace ServerKit

def kOK : ℤ := 0

def kError : ℤ := -1

/-- `EINTR`. -/
def eINTR : ℤ := 4

/-- `EAGAIN`; `EWOULDBLOCK` is the same. -/
def eAGAIN : ℤ := 11

/-- `IsIOTryAgain`. -/
def isIOTryAgain (err : ℤ) : Bool := err == eAGAIN

/-- A result of `::write`, with what `errno` holds afterwards where the code looks at it. -/
inductive WriteResult
  | bytes (n : ℕ)
  | zero (errno : ℤ)
  | error (errno : ℤ)
deriving DecidableEq, Repr

/-- A result of `::read`, with what `errno` holds afterwards where the code looks at it. -/
inductive ReadResult
  | bytes (src : List UInt8)
  | zero (errno : ℤ)
  | error (errno : ℤ)
deriving DecidableEq, Repr

inductive SocketStatus
  | init
  | connecting
  | connected
  | closed
deriving DecidableEq, Repr

inductive SocketType
  | client
  | server
deriving DecidableEq, Repr

/-- A `Socket`, with its `handle_`. `hasHandler` and `hasPoller` say that `handler_` and `poller_`
are not NULL. `fdClosed` and `lastWrite` are the history of `fd_`: whether it has been closed, and
what the last `::write` on it has returned. -/
structure Socket where
  fd : ℤ
  hasHandler : Bool
  hasPoller : Bool
  isWritable : Bool
  readList : BufferList
  writeList : BufferList
  status : SocketStatus
  type : SocketType
  handle : Option EpollEntryPtr
  fdClosed : Bool
  lastWrite : Option WriteResult
deriving DecidableEq, Repr

/-- Where `Socket::Out` is. `n` is what its local variable of this name holds, which nothing
initialises; `ret` is that of `Send`. -/
inductive OutPc
  | start (n : ℤ)
  /-- In `handler_->OnConnect(kOK)`. -/
  | onConnect (n : ℤ)
  | connected (n : ℤ)
  /-- At the head of the loop. -/
  | loop (n : ℤ)
  /-- At the head of the loop of `Send`. -/
  | send (ret : ℤ)
  /-- Behind `Send`. -/
  | sent (n err : ℤ)
  /-- In `handler_->OnError(err)`. -/
  | onError (err : ℤ)
  | close
  /-- Behind the loop. -/
  | finish (n : ℤ)
  /-- In `handler_->OnWrite()`. -/
  | onWrite
deriving DecidableEq, Repr

/-- Where `Socket::In` is. `ret` is that of `Recv`. -/
inductive InPc
  | start
  /-- At the head of the loop of `Recv`. -/
  | recv (ret : ℤ)
  /-- Behind `Recv`. -/
  | received (err : ℤ)
  /-- In `handler_->OnError(err)`. -/
  | onError (err : ℤ)
  | close
  /-- Behind the loop. -/
  | finish
  /-- In `handler_->OnRead()`. -/
  | onRead
deriving DecidableEq, Repr

namespace Socket

/-- `Socket::Socket(endpoint, poller, handler)`. -/
def newClient (fd : ℤ) (hasHandler : Bool) (readList writeList : BufferList) : Socket where
  fd := fd
  hasHandler := hasHandler
  hasPoller := true
  isWritable := false
  readList := readList
  writeList := writeList
  status := .init
  type := .client
  handle := none
  fdClosed := false
  lastWrite := none

/-- `Socket::Socket(fd, handler)`. -/
def newServer (fd : ℤ) (hasHandler : Bool) (readList writeList : BufferList) : Socket where
  fd := fd
  hasHandler := hasHandler
  hasPoller := false
  isWritable := false
  readList := readList
  writeList := writeList
  status := .connected
  type := .server
  handle := none
  fdClosed := false
  lastWrite := none

/-- Writes `status_`. -/
def setStatus (s : Socket) (status : SocketStatus) : Socket := { s with status := status }

/-- Writes `is_writable_`. -/
def setWritable (s : Socket) (isWritable : Bool) : Socket := { s with isWritable := isWritable }

/-- Writes `read_list_`. -/
def setReadList (s : Socket) (readList : BufferList) : Socket := { s with readList := readList }

/-- Writes `write_list_`. -/
def setWriteList (s : Socket) (writeList : BufferList) : Socket := { s with writeList := writeList }

/-- A `::write` on `fd_` has returned. -/
def setLastWrite (s : Socket) (r : WriteResult) : Socket := { s with lastWrite := some r }

/-- `Socket::Out` up to the next system call or callback, or its end: the Socket, and where `Out`
is then unless it has returned. -/
def outStep (s : Socket) : OutPc → Option (Socket × Option OutPc)
  | .start n =>
    if s.status = .connecting then
      -- the code calls OnConnect without looking whether there is a handler
      if s.hasHandler then some (s.setStatus .connected, some (.onConnect n)) else none
    else some (s, some (.connected n))
  | .connected n => some (s, if s.status ≠ .connected then none else some (.loop n))
  | .loop n =>
    if s.writeList.empty then some (s.setWritable false, some (.finish n))
    else some (s, some (.send 0))
  | .send ret => if s.writeList.readableSize = 0 then some (s, some (.sent ret kOK)) else none
  | .sent n err =>
    if err ≠ kOK ∧ !isIOTryAgain err then
      some (s, some (if s.hasHandler then .onError err else .close))
    else if isIOTryAgain err then some (s, some (.finish n))
    else some (s, some (.loop n))
  | .finish n => some (s, if 0 < n ∧ s.hasHandler then some .onWrite else none)
  | .onConnect _ | .onError _ | .close | .onWrite => none

/-- What `Send` does with a result of `::write`, except for the bytes written. -/
def afterWrite (ret : ℤ) : WriteResult → OutPc
  | .bytes n => .send (ret + n)
  | .zero errno => .sent kError errno
  | .error errno =>
    if errno = eINTR then .send ret
    else if isIOTryAgain errno then .sent ret errno
    else .sent kError errno

/-- `Socket::Out` when a callback returns. -/
def outReturn : OutPc → Option (Option OutPc)
  | .onConnect n => some (some (.connected n))
  | .onError _ => some (some .close)
  | .onWrite => some none
  | .start _ | .connected _ | .loop _ | .send _ | .sent _ _ | .close | .finish _ => none

/-- `Socket::In` up to the next system call or callback, or its end: where `In` is then unless it
has returned. -/
def inStep (s : Socket) : InPc → Option (Option InPc)
  | .start => some (if s.status ≠ .connected then none else some (.recv 0))
  | .received err =>
    if err ≠ kOK ∧ !isIOTryAgain err then
      some (some (if s.hasHandler then .onError err else .close))
    else if isIOTryAgain err then some (some .finish)
    else some (some (.recv 0))
  | .finish => some (if !s.readList.empty ∧ s.hasHandler then some .onRead else none)
  | .recv _ | .onError _ | .close | .onRead => none

/-- What `Recv` does with a result of `::read`, except for the bytes read. -/
def afterRead (ret : ℤ) : ReadResult → InPc
  | .bytes src => .recv (ret + src.length)
  | .zero errno => .received errno
  | .error errno =>
    if isIOTryAgain errno then .received errno
    else if errno = eINTR then .recv ret
    else .received errno

/-- `Socket::In` when a callback returns. -/
def inReturn : InPc → Option (Option InPc)
  | .onError _ => some (some .close)
  | .onRead => some none
  | .start | .recv _ | .received _ | .close | .finish => none

end Socket

end ServerKit
