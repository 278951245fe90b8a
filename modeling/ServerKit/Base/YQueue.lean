import Mathlib.Data.Nat.Notation
import Mathlib.Logic.Function.Basic

/-!
# `base/yqueue.h`

`YQueue` is a queue in linked chunks of `N` elements. A chunk that has been read out is kept as a
spare and goes back to the other end; other chunks come from `malloc` and go back by `free`, so the
addresses of elements are used again and again. Every access is checked: an operation is `none` when
it would follow a NULL or dangling pointer, leave the bounds of a chunk, free what is not allocated,
or read an element nobody has written.
-/

namespace ServerKit

/-- A `chunk_t*` that is not NULL. -/
abbrev ChunkPtr := ℕ

/-- The address of an element: its chunk and its position there. -/
abbrev ElemPtr := ChunkPtr × ℕ

/-- `chunk_t`. An element is `none` until it is written. -/
structure Chunk (T : Type) where
  values : ℕ → Option T
  prev : Option ChunkPtr
  next : Option ChunkPtr

namespace Chunk

variable {T : Type}

/-- What `malloc` returns. -/
def uninit : Chunk T where
  values := fun _ => none
  prev := none
  next := none

/-- Writes `values[k]`. -/
def setValue (c : Chunk T) (k : ℕ) (v : T) : Chunk T :=
  { c with values := Function.update c.values k (some v) }

/-- Writes `prev`. -/
def setPrev (c : Chunk T) (p : Option ChunkPtr) : Chunk T := { c with prev := p }

/-- Writes `next`. -/
def setNext (c : Chunk T) (p : Option ChunkPtr) : Chunk T := { c with next := p }

end Chunk

/-- `YQueue<T, N>`, with the chunks that are allocated. -/
structure YQueue (T : Type) (N : ℕ) where
  mem : ChunkPtr → Option (Chunk T)
  beginChunk : Option ChunkPtr
  beginPos : ℕ
  backChunk : Option ChunkPtr
  backPos : ℕ
  endChunk : Option ChunkPtr
  endPos : ℕ
  spareChunk : Option ChunkPtr

namespace YQueue

variable {T : Type} {N : ℕ}

/-- Reads a chunk. -/
def deref (q : YQueue T N) (p : Option ChunkPtr) : Option (Chunk T) := p.bind q.mem

/-- Writes a chunk. -/
def modify (q : YQueue T N) (p : Option ChunkPtr) (f : Chunk T → Chunk T) :
    Option (YQueue T N) := do
  let p ← p
  let c ← q.mem p
  return { q with mem := Function.update q.mem p (some (f c)) }

/-- `allocate_chunk()`, when `malloc` returns `p`. -/
def allocateChunk (q : YQueue T N) (p : ChunkPtr) : YQueue T N :=
  { q with mem := Function.update q.mem p (some Chunk.uninit) }

/-- `free(p)`. -/
def freeChunk (q : YQueue T N) : Option ChunkPtr → Option (YQueue T N)
  | none => some q
  | some p =>
    if (q.mem p).isSome then some { q with mem := Function.update q.mem p none } else none

/-- `spare_chunk_.Xchg(p)`. -/
def xchgSpare (q : YQueue T N) (p : Option ChunkPtr) : Option ChunkPtr × YQueue T N :=
  (q.spareChunk, { q with spareChunk := p })

/-- `YQueue::YQueue`, when `malloc` returns `p`. -/
def new (p : ChunkPtr) : YQueue T N :=
  allocateChunk { mem := fun _ => none, beginChunk := some p, beginPos := 0, backChunk := none,
                  backPos := 0, endChunk := some p, endPos := 0, spareChunk := none } p

/-- `&YQueue::Front()`. -/
def frontAddr (q : YQueue T N) : Option ElemPtr := q.beginChunk.map (·, q.beginPos)

/-- `&YQueue::Back()`. -/
def backAddr (q : YQueue T N) : Option ElemPtr := q.backChunk.map (·, q.backPos)

/-- Reads `values[k]` of a chunk. -/
def valueAt (q : YQueue T N) (p : Option ChunkPtr) (k : ℕ) : Option T := do
  let c ← q.deref p
  if k < N then c.values k else none

/-- Reads `YQueue::Front()`. -/
def front (q : YQueue T N) : Option T := q.valueAt q.beginChunk q.beginPos

/-- Reads `YQueue::Back()`. -/
def back (q : YQueue T N) : Option T := q.valueAt q.backChunk q.backPos

/-- Writes `YQueue::Back()`. -/
def setBack (q : YQueue T N) (v : T) : Option (YQueue T N) :=
  if q.backPos < N then q.modify q.backChunk (·.setValue q.backPos v) else none

/-- The new end chunk of `YQueue::Push`: the spare chunk if there is one, or what `malloc`
returns, `p`. -/
def addChunk (q : YQueue T N) (p : ChunkPtr) : Option (YQueue T N) := do
  let (sc, q) := q.xchgSpare none
  let (c, q) := match sc with
    | some sc => (sc, q)
    | none => (p, q.allocateChunk p)
  let q ← q.modify q.endChunk (·.setNext (some c))
  let q ← q.modify (some c) (·.setPrev q.endChunk)
  let e ← q.deref q.endChunk
  return { q with endChunk := e.next, endPos := 0 }

/-- `YQueue::Push`, when `malloc` returns `p`. -/
def push (q : YQueue T N) (p : ChunkPtr) : Option (YQueue T N) :=
  let q := { q with backChunk := q.endChunk, backPos := q.endPos, endPos := q.endPos + 1 }
  if q.endPos ≠ N then some q else q.addChunk p

/-- The first part of `YQueue::UnPush`: back moves one position backwards. -/
def unPushBack (q : YQueue T N) : Option (YQueue T N) :=
  if q.backPos ≠ 0 then some { q with backPos := q.backPos - 1 }
  else do
    let c ← q.deref q.backChunk
    return { q with backPos := N - 1, backChunk := c.prev }

/-- The second part of `YQueue::UnPush`: end moves one position backwards, and an obsolete end
chunk is freed. -/
def unPushEnd (q : YQueue T N) : Option (YQueue T N) :=
  if q.endPos ≠ 0 then some { q with endPos := q.endPos - 1 }
  else do
    let e ← q.deref q.endChunk
    let q : YQueue T N := { q with endPos := N - 1, endChunk := e.prev }
    let e ← q.deref q.endChunk
    let q ← q.freeChunk e.next
    q.modify q.endChunk (·.setNext none)

/-- `YQueue::UnPush`. -/
def unPush (q : YQueue T N) : Option (YQueue T N) := q.unPushBack >>= unPushEnd

/-- The end of `YQueue::Pop`: the chunk that has been read out becomes the spare one. -/
def dropChunk (q : YQueue T N) : Option (YQueue T N) := do
  let o := q.beginChunk
  let c ← q.deref o
  let q : YQueue T N := { q with beginChunk := c.next }
  let q ← q.modify q.beginChunk (·.setPrev none)
  let q : YQueue T N := { q with beginPos := 0 }
  let (cs, q) := q.xchgSpare o
  q.freeChunk cs

/-- `YQueue::Pop`. -/
def pop (q : YQueue T N) : Option (YQueue T N) :=
  let q := { q with beginPos := q.beginPos + 1 }
  if q.beginPos = N then q.dropChunk else some q

/-- The loop of `YQueue::~YQueue`, `fuel` rounds of it at most: the chunks are freed from the begin
chunk to the end chunk. -/
def destroyLoop : ℕ → YQueue T N → Option (YQueue T N)
  | 0, _ => none
  | fuel + 1, q =>
    if q.beginChunk = q.endChunk then q.freeChunk q.beginChunk
    else do
      let o := q.beginChunk
      let c ← q.deref o
      let q : YQueue T N := { q with beginChunk := c.next }
      let q ← q.freeChunk o
      q.destroyLoop fuel

/-- `YQueue::~YQueue`. -/
def destroy (q : YQueue T N) (fuel : ℕ) : Option (YQueue T N) := do
  let q ← q.destroyLoop fuel
  let (sc, q) := q.xchgSpare none
  q.freeChunk sc

end YQueue

end ServerKit
