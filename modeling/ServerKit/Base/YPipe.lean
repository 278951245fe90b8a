import ServerKit.Base.YQueue
import ServerKit.Lib.Pipe

/-!
# `base/ypipe.h`, `base/atomic.h`

`YPipe` passes items from one writer to one reader without a lock. The two share the pointer `c_`,
which is NULL while the reader is asleep. Each operation is one step, except a `Flush` that finds
`c_` NULL: it sets `c_` in a second step, and the reader may run in between.
-/

namespace ServerKit

open Lib

/-- `AtomicPointer::Cas(cmp, val)` on a pointer that holds `ptr`: what it returns, and what the
pointer holds afterwards. -/
def AtomicPointer.cas (ptr cmp val : Option ElemPtr) : Option ElemPtr × Option ElemPtr :=
  if ptr = cmp then (ptr, val) else (ptr, ptr)

/-- `YPipe<T, N>`. -/
structure YPipe (T : Type) (N : ℕ) where
  queue : YQueue T N
  w : Option ElemPtr
  f : Option ElemPtr
  r : Option ElemPtr
  c : Option ElemPtr

namespace YPipe

variable {T : Type} {N : ℕ}

/-- `YPipe::YPipe`, when `malloc` returns `p` and, should it be called again, `p'`. -/
def new (p p' : ChunkPtr) : Option (YPipe T N) := do
  let queue ← (YQueue.new p).push p'
  let back := queue.backAddr
  return { queue := queue, w := back, f := back, r := back, c := back }

/-- `YPipe::Write`, when `malloc` returns `p`. -/
def write (y : YPipe T N) (v : T) (incomplete : Bool) (p : ChunkPtr) : Option (YPipe T N) := do
  let queue ← y.queue.setBack v
  let queue ← queue.push p
  let y := { y with queue := queue }
  return if !incomplete then { y with f := y.queue.backAddr } else y

/-- `YPipe::UnWrite`: the item taken back, if there is one. -/
def unWrite (y : YPipe T N) : Option (Option T × YPipe T N) :=
  if y.f = y.queue.backAddr then some (none, y)
  else do
    let queue ← y.queue.unPush
    let v ← queue.back
    return (some v, { y with queue := queue })

/-- The compare-and-swap of `YPipe::Flush`, and when it succeeds the rest: whether it does. -/
def flushCas (y : YPipe T N) : Bool × YPipe T N :=
  let (old, c) := AtomicPointer.cas y.c y.w y.f
  if old ≠ y.w then (false, { y with c := c })
  else (true, { y with c := c, w := y.f })

/-- The rest of `YPipe::Flush` when the compare-and-swap fails. -/
def flushSet (y : YPipe T N) : YPipe T N := { y with c := y.f, w := y.f }

/-- `YPipe::CheckRead`. -/
def checkRead (y : YPipe T N) : Bool × YPipe T N :=
  if y.queue.frontAddr ≠ y.r ∧ y.r ≠ none then (true, y)
  else
    let (r, c) := AtomicPointer.cas y.c y.queue.frontAddr none
    let y := { y with r := r, c := c }
    if y.queue.frontAddr = y.r ∨ y.r = none then (false, y) else (true, y)

/-- `YPipe::Read`: the item read, if there is one. -/
def read (y : YPipe T N) : Option (Option T × YPipe T N) :=
  let (found, y) := y.checkRead
  if !found then some (none, y)
  else do
    let v ← y.queue.front
    let queue ← y.queue.pop
    return (some v, { y with queue := queue })

end YPipe

/-- A pipe, and whether its writer is in `Flush` behind a compare-and-swap that has failed. -/
structure YPipeState (T : Type) (N : ℕ) where
  pipe : YPipe T N
  flushing : Bool

/-- One step of the writer or of the reader. -/
inductive YPipeStep {T : Type} {N : ℕ} : Lts (YPipeState T N) (PipeEvent T)
  | write {y y' : YPipe T N} {v : T} {incomplete : Bool} {p : ChunkPtr} :
      y.queue.mem p = none → y.write v incomplete p = some y' →
      YPipeStep ⟨y, false⟩ (.write v incomplete) ⟨y', false⟩
  | unWrite {y y' : YPipe T N} {r : Option T} : y.unWrite = some (r, y') →
      YPipeStep ⟨y, false⟩ (.unWrite r) ⟨y', false⟩
  | flushNothing {y : YPipe T N} : y.w = y.f → YPipeStep ⟨y, false⟩ .flushNothing ⟨y, false⟩
  | flushCas {y y' : YPipe T N} {ok : Bool} : y.w ≠ y.f → y.flushCas = (ok, y') →
      YPipeStep ⟨y, false⟩ (.flushTry ok) ⟨y', !ok⟩
  | flushSet {y : YPipe T N} : YPipeStep ⟨y, true⟩ .flushSet ⟨y.flushSet, false⟩
  | checkRead {y y' : YPipe T N} {found flushing : Bool} : y.checkRead = (found, y') →
      YPipeStep ⟨y, flushing⟩ (.checkRead found) ⟨y', flushing⟩
  | read {y y' : YPipe T N} {r : Option T} {flushing : Bool} : y.read = some (r, y') →
      YPipeStep ⟨y, flushing⟩ (.read r) ⟨y', flushing⟩

end ServerKit
