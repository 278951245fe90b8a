import ServerKit.Core.EventLoop
import ServerKit.Base.ObjectPool

/-!
# The bytes that go through a Socket

A `StreamLog` is the history of one Socket: the bytes its user has written, those `::write` has
taken, those `::read` has brought, and those its user has read. `LoggedStep` is `LoopStep` with
these histories, and `PeersStep` runs any number of event loops whose Sockets are connected in
pairs: what `::read` brings at one end is what `::write` has taken at the other.
-/

namespace ServerKit

open Lib

/-- The history of a Socket. -/
structure StreamLog where
  /-- By `Socket::Write`. -/
  written : List UInt8
  /-- By `::write`. -/
  sent : List UInt8
  /-- By `::read`. -/
  received : List UInt8
  /-- By `Socket::Read`. -/
  read : List UInt8
deriving DecidableEq, Repr

namespace StreamLog

/-- Before anything has happened. -/
def new : StreamLog where
  written := []
  sent := []
  received := []
  read := []

def write (log : StreamLog) (src : List UInt8) : StreamLog :=
  { log with written := log.written ++ src }

def send (log : StreamLog) (bytes : List UInt8) : StreamLog :=
  { log with sent := log.sent ++ bytes }

def receive (log : StreamLog) (src : List UInt8) : StreamLog :=
  { log with received := log.received ++ src }

def take (log : StreamLog) (bytes : List UInt8) : StreamLog :=
  { log with read := log.read ++ bytes }

end StreamLog

namespace EventLoop

variable {σ : Type}

/-- The Socket whose function runs. -/
def running (w : EventLoop σ) : Option SocketPtr :=
  match w.stack with
  | .out k _ :: _ | .input k _ :: _ | .connect k :: _ => some k
  | [] => none

/-- The bytes that `::write` takes when it returns `n`: those at `ReadPoint()`. -/
def bytesTaken (w : EventLoop σ) (k : SocketPtr) (n : ℕ) : List UInt8 :=
  match w.sockets k with
  | none => []
  | some s =>
    match BufferList.copyFromReadPoint w.mem s.writeList n with
    | .ok bytes => bytes
    | .error _ => []

/-- What a step adds to the history of the Socket `k`. -/
def record (w : EventLoop σ) (k : SocketPtr) (log : StreamLog) : LoopEvent → StreamLog
  | .write j src => if j = k then log.write src else log
  | .read j bytes => if j = k then log.take bytes else log
  | .sysWrite (.bytes n) => if w.running = some k then log.send (w.bytesTaken k n) else log
  | .sysRead (.bytes src) => if w.running = some k then log.receive src else log
  | _ => log

/-- `::write` does not take more than the contiguous bytes at `ReadPoint()`. -/
def WithinBuffer (w : EventLoop σ) (e : LoopEvent) : Prop :=
  ∀ n k s, e = .sysWrite (.bytes n) → w.running = some k → w.sockets k = some s →
    n ≤ s.writeList.currentBufferReadSize

end EventLoop

/-- An event loop with the histories of its Sockets. -/
structure Logged (σ : Type) where
  loop : EventLoop σ
  logs : SocketPtr → StreamLog

/-- Every Buffer made is in the free list. -/
def ObjectList.AllFree (s : ObjectList) : Prop :=
  s.freeList.Nodup ∧ ∀ p : BufferPtr, p.val < s.made ↔ p ∈ s.freeList

/-- Nothing has happened. -/
def Logged.Start (w : Logged ObjectList) : Prop :=
  w.loop.Start ∧ w.loop.mem.pool.AllFree ∧ ∀ k, w.logs k = .new

/-- One step of a loop, recorded. -/
inductive LoggedStep {σ : Type} (P : ObjectPool σ) : Lts (Logged σ) LoopEvent
  | step {w : Logged σ} {e : LoopEvent} {loop : EventLoop σ} : LoopStep P w.loop e loop →
      LoggedStep P w e ⟨loop, fun k => w.loop.record k (w.logs k) e⟩

/-- Event loops, by name. Each is a thread, of this process or another, with Buffers of its own. -/
abbrev Peers (ι : Type) := ι → Logged ObjectList

/-- Which Socket of which loop is at the other end of the connection of a Socket. -/
abbrev Wiring (ι : Type) := ι → SocketPtr → Option (ι × SocketPtr)

/-- The kernel brings bytes in order: in the step `e` of the loop `i`, `::read` brings bytes that
`::write` has taken at the other end and that have not been brought yet. -/
def Peers.Delivers {ι : Type} (wiring : Wiring ι) (w : Peers ι) (i : ι) (e : LoopEvent) : Prop :=
  ∀ src k, e = .sysRead (.bytes src) → (w i).loop.running = some k →
    ∃ j m, wiring i k = some (j, m) ∧
      src <+: ((w j).logs m).sent.drop ((w i).logs k).received.length

/-- One step of the loop `i`. -/
inductive PeersStep {ι : Type} [DecidableEq ι] (wiring : Wiring ι) : Lts (Peers ι) (ι × LoopEvent)
  | step {w : Peers ι} {i : ι} {e : LoopEvent} {w' : Logged ObjectList} :
      w.Delivers wiring i e → LoggedStep objectPool (w i) e w' →
      PeersStep wiring w (i, e) (Function.update w i w')

/-- No step takes more than the contiguous bytes. -/
def Peers.WithinBuffer {ι : Type} (w : Peers ι) (l : ι × LoopEvent) : Prop :=
  (w l.1).loop.WithinBuffer l.2

end ServerKit
