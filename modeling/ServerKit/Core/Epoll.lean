import ServerKit.Base.Buffer
import Mathlib.Data.Int.Notation

/-!
# `core/epoll.h`, `core/epoll.cc`

The registration of Events with an `Epoll`. Events are named by the addresses of the Sockets. The
rounds of `Epoll::Poll` are steps of `ServerKit.Core.EventLoop`.
-/

namespace ServerKit

/-- An `EpollEntry*` that is not NULL, and so a valid `handle_t`. -/
abbrev EpollEntryPtr := ℕ

/-- A `Socket*`. -/
abbrev SocketPtr := ℕ

def kInvalidFd : ℤ := -1

def kIncrPollSize : ℤ := 1024

/-- `EpollEntry`. -/
structure EpollEntry where
  fd : ℤ
  event : SocketPtr
deriving DecidableEq, Repr

/-- The bits of an event mask that the code looks at. -/
structure EventMask where
  errOrHup : Bool
  input : Bool
  output : Bool
deriving DecidableEq, Repr

/-- An `epoll_event` that `epoll_wait` has stored. -/
structure EpollEvent where
  ptr : EpollEntryPtr
  events : EventMask
deriving DecidableEq, Repr

/-- `Epoll`: `size_`, `retired_list_` and `writeable_list_`; and the entries that have been
allocated and not deleted, with the address of the next. -/
structure Epoll where
  size : ℤ
  retired : List EpollEntryPtr
  writeable : List EpollEntryPtr
  entries : EpollEntryPtr → Option EpollEntry
  nextEntry : EpollEntryPtr

namespace Epoll

/-- `Epoll::Epoll` and `Epoll::Init`. -/
def init (size : ℤ) : Epoll where
  size := size
  retired := []
  writeable := []
  entries := fun _ => none
  nextEntry := 0

/-- Writes, or deletes, the entry at an address. -/
def setEntry (e : Epoll) (ee : EpollEntryPtr) (en : Option EpollEntry) : Epoll :=
  { e with entries := Function.update e.entries ee en }

@[simp] theorem setEntry_nextEntry (e : Epoll) (ee : EpollEntryPtr) (en : Option EpollEntry) :
    (e.setEntry ee en).nextEntry = e.nextEntry := rfl
@[simp] theorem setEntry_writeable (e : Epoll) (ee : EpollEntryPtr) (en : Option EpollEntry) :
    (e.setEntry ee en).writeable = e.writeable := rfl
@[simp] theorem setEntry_self (e : Epoll) (ee : EpollEntryPtr) (en : Option EpollEntry) :
    (e.setEntry ee en).entries ee = en := Function.update_self ..
theorem setEntry_ne (e : Epoll) {ee ee' : EpollEntryPtr} (en : Option EpollEntry) (h : ee' ≠ ee) :
    (e.setEntry ee en).entries ee' = e.entries ee' := Function.update_of_ne h ..

/-- `Epoll::Add`: the handle, which is NULL when `epoll_ctl` fails. -/
def add (e : Epoll) (fd : ℤ) (event : SocketPtr) (added : Bool) : Option EpollEntryPtr × Epoll :=
  if !added then (none, e)
  else
    let ee := e.nextEntry
    let e := e.setEntry ee (some { fd := fd, event := event })
    (some ee, { e with
      size := if e.size < fd then fd + kIncrPollSize else e.size
      nextEntry := ee + 1 })

/-- `*ee`. -/
def entry (e : Epoll) (ee : EpollEntryPtr) : Except Fault EpollEntry :=
  match e.entries ee with
  | some en => .ok en
  | none => .error .dangling

/-- `Epoll::Del`. -/
def del (e : Epoll) : Option EpollEntryPtr → Except Fault Epoll
  | none => .ok e
  | some ee => do
    let en ← e.entry ee
    let e := e.setEntry ee (some { en with fd := kInvalidFd })
    return { e with retired := e.retired ++ [ee] }

/-- `Epoll::MarkWriteable`. -/
def markWriteable (e : Epoll) : Option EpollEntryPtr → Epoll
  | none => e
  | some ee => { e with writeable := e.writeable ++ [ee] }

/-- `delete ee`. -/
def delete (e : Epoll) (ee : EpollEntryPtr) : Except Fault Epoll := do
  let _ ← e.entry ee
  return e.setEntry ee none

/-- The loop of `Epoll::processRetired`. -/
def deleteAll (e : Epoll) : List EpollEntryPtr → Except Fault Epoll
  | [] => .ok e
  | ee :: rest => do
    let e ← e.delete ee
    e.deleteAll rest

/-- `Epoll::processRetired`. -/
def processRetired (e : Epoll) : Except Fault Epoll := do
  let e ← e.deleteAll e.retired
  return { e with retired := [] }

end Epoll

end ServerKit
