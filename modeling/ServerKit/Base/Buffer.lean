import ServerKit.Lib.Word
import ServerKit.Lib.Outcome
import Mathlib.Algebra.Group.Nat.Defs
import Mathlib.Logic.Function.Basic

/-!
# `base/buffer.h`, `base/buffer.cc`

`Buffer` is a fixed block of `kBufferSize` bytes with a link; `BufferList` chains Buffers into an
unbounded byte queue. Buffers come from and go back to an object pool through `GetObject` and
`FreeObject`, which are a parameter here (`ObjectPool`): `ServerKit.Base.ObjectPool` is the
repository's own.
-/

namespace ServerKit

open Lib

/-- Buffer size, in bytes. -/
def kBufferSize : ℕ := 4096

/-- The Buffers a 64-bit address space has room for: they do not overlap and hold `kBufferSize`
bytes each. -/
def numBuffers : ℕ := 2 ^ 52

/-- A `Buffer*` that is not NULL. -/
abbrev BufferPtr := Fin numBuffers

/-- What can go wrong while the code below runs. -/
inductive Fault
  /-- `new` has thrown. -/
  | badAlloc
  /-- A NULL pointer has been dereferenced. -/
  | nullPointer
  /-- Bytes outside a Buffer have been read or written. -/
  | outOfBounds
  /-- A loop never ends. -/
  | noReturn
  /-- An assertion has failed. -/
  | assertion
  /-- A deleted object has been used. -/
  | dangling
deriving DecidableEq, Repr

/-- `Buffer`: `data_`, the offset of `cur_` in it, and `next_`. -/
structure Buffer where
  data : ℕ → UInt8
  cur : ℕ
  next : Option BufferPtr

/-- `Buffer::Reset`: `data_` is filled with the character `'0'`; `next_` is left alone. -/
def Buffer.reset (b : Buffer) : Buffer :=
  { b with data := fun _ => 0x30, cur := 0 }

/-- `Buffer::Buffer`. -/
def Buffer.new : Buffer :=
  Buffer.reset { data := fun _ => 0, cur := 0, next := none }

/-- Writes `data_`. -/
def Buffer.setData (b : Buffer) (d : ℕ → UInt8) : Buffer := { b with data := d }

/-- Writes `next_`. -/
def Buffer.setNext (b : Buffer) (q : Option BufferPtr) : Buffer := { b with next := q }

@[simp] theorem Buffer.reset_next (b : Buffer) : b.reset.next = b.next := rfl
@[simp] theorem Buffer.setData_next (b : Buffer) (d : ℕ → UInt8) :
    (b.setData d).next = b.next := rfl
@[simp] theorem Buffer.setData_data (b : Buffer) (d : ℕ → UInt8) : (b.setData d).data = d := rfl
@[simp] theorem Buffer.setNext_next (b : Buffer) (q : Option BufferPtr) :
    (b.setNext q).next = q := rfl
@[simp] theorem Buffer.setNext_data (b : Buffer) (q : Option BufferPtr) :
    (b.setNext q).data = b.data := rfl

/-- The Buffers of a thread, by address. -/
abbrev Heap := BufferPtr → Buffer

/-- A thread's memory: its Buffers and the state of its object pool. -/
structure Memory (σ : Type) where
  heap : Heap
  pool : σ

/-- `GetObject<Buffer>()` and `FreeObject<Buffer>(p)`. -/
structure ObjectPool (σ : Type) where
  getObject : Memory σ → Except Fault (BufferPtr × Memory σ)
  freeObject : Memory σ → BufferPtr → Memory σ

/-- `BufferList`: its `size_t` fields and its pointers, which are NULL when `none`. -/
structure BufferList where
  readInx : ℕ
  writeInx : ℕ
  head : Option BufferPtr
  read : Option BufferPtr
  write : Option BufferPtr
  writeSize : ℕ
  readSize : ℕ
deriving DecidableEq, Repr

/-- A pointer about to be dereferenced. -/
def deref : Option BufferPtr → Except Fault BufferPtr
  | some p => .ok p
  | none => .error .nullPointer

namespace Memory

variable {σ : Type}

/-- Writes the field `next_` of a Buffer. -/
def setNext (m : Memory σ) (p : BufferPtr) (q : Option BufferPtr) : Memory σ :=
  { m with heap := Function.update m.heap p ((m.heap p).setNext q) }

/-- The data of a Buffer after `src` has been copied over it at an offset. -/
def overwrite (data : ℕ → UInt8) (off : ℕ) (src : List UInt8) : ℕ → UInt8 :=
  fun i => if off ≤ i then (src[i - off]?).getD (data i) else data i

/-- `memcpy(p->Data() + off, src, src.length)`. -/
def copyIn (m : Memory σ) (p : BufferPtr) (off : ℕ) (src : List UInt8) :
    Except Fault (Memory σ) :=
  if off + src.length ≤ kBufferSize then
    let b := (m.heap p).setData (overwrite (m.heap p).data off src)
    .ok { m with heap := Function.update m.heap p b }
  else .error .outOfBounds

/-- `memcpy(to, p->Data() + off, n)`: the bytes copied. -/
def copyOut (m : Memory σ) (p : BufferPtr) (off n : ℕ) : Except Fault (List UInt8) :=
  if off + n ≤ kBufferSize then .ok ((List.range n).map fun i => (m.heap p).data (off + i))
  else .error .outOfBounds

end Memory

namespace BufferList

variable {σ : Type} (P : ObjectPool σ)

/-- `BufferList::BufferList`. -/
def new (m : Memory σ) : Except Fault (Memory σ × BufferList) := do
  let (p, m) ← P.getObject m
  return (m, { readInx := 0, writeInx := 0, head := some p, read := some p, write := some p,
               writeSize := 0, readSize := 0 })

/-- `BufferList::ReadableSize`. -/
def readableSize (l : BufferList) : ℕ := wordSub l.writeSize l.readSize

/-- `BufferList::WriteableSize`. -/
def writeableSize (l : BufferList) : ℕ := wordSub kBufferSize l.writeInx

/-- `BufferList::Empty`. -/
def empty (l : BufferList) : Bool := l.readableSize == 0

/-- `BufferList::currentBufferReadSize`. -/
def currentBufferReadSize (l : BufferList) : ℕ :=
  if l.read = l.write then wordSub l.writeInx l.readInx
  else wordSub kBufferSize l.readInx

/-- `BufferList::ReadAdvance`. -/
def readAdvance (m : Memory σ) (l : BufferList) (n : ℕ) : Except Fault (Memory σ × BufferList) :=
  let l := { l with readInx := wordAdd l.readInx n, readSize := wordAdd l.readSize n }
  if l.readInx = kBufferSize then do
    let buffer ← deref l.read
    let next := (m.heap buffer).next
    return (P.freeObject m buffer, { l with read := next, head := next, readInx := 0 })
  else .ok (m, l)

/-- `BufferList::WriteAdvance`. -/
def writeAdvance (m : Memory σ) (l : BufferList) (n : ℕ) : Except Fault (Memory σ × BufferList) :=
  let l := { l with writeInx := wordAdd l.writeInx n, writeSize := wordAdd l.writeSize n }
  if l.writeInx = kBufferSize then do
    let (buffer, m) ← P.getObject m
    let write ← deref l.write
    return (m.setNext write (some buffer), { l with write := some buffer, writeInx := 0 })
  else .ok (m, l)

/-- `memcpy(WritePoint(), src, src.length)`. -/
def copyToWritePoint (m : Memory σ) (l : BufferList) (src : List UInt8) :
    Except Fault (Memory σ) := do
  let write ← deref l.write
  m.copyIn write l.writeInx src

/-- `memcpy(to, ReadPoint(), n)`: the bytes copied. -/
def copyFromReadPoint (m : Memory σ) (l : BufferList) (n : ℕ) : Except Fault (List UInt8) := do
  let read ← deref l.read
  m.copyOut read l.readInx n

/-- The loop of `BufferList::Read`, with the iterations it may still make. `n` bytes are still
asked for; `out` holds those already copied to `to`. -/
def readLoop : ℕ → Memory σ → BufferList → ℕ → List UInt8 →
    Except Fault ((ℕ × List UInt8) × Memory σ × BufferList)
  | 0, _, _, _, _ => .error .noReturn
  | fuel + 1, m, l, n, out =>
    if 0 < n then
      if l.readableSize = 0 then .ok ((n, out), m, l)
      else
        let currentSize := l.currentBufferReadSize
        if currentSize < n then do
          let bytes ← copyFromReadPoint m l currentSize
          let (m, l) ← readAdvance P m l currentSize
          readLoop fuel m l (n - currentSize) (out ++ bytes)
        else do
          let bytes ← copyFromReadPoint m l n
          let (m, l) ← readAdvance P m l n
          return ((0, out ++ bytes), m, l)
    else .ok ((n, out), m, l)

/-- `BufferList::Read(to, n)`: the number of bytes read, and the bytes. -/
def readBytes (m : Memory σ) (l : BufferList) (n : ℕ) :
    Except Fault ((ℕ × List UInt8) × Memory σ × BufferList) := do
  let ((rest, out), m, l) ← readLoop P (n + 1) m l n []
  return ((n - rest, out), m, l)

/-- The loop of `BufferList::Write`, with the iterations it may still make. `src` is what is still
to be copied. -/
def writeLoop : ℕ → Memory σ → BufferList → List UInt8 → ℕ →
    Except Fault (ℕ × Memory σ × BufferList)
  | 0, _, _, _, _ => .error .noReturn
  | fuel + 1, m, l, src, total =>
    if 0 < src.length then
      let writeSize := l.writeableSize
      if writeSize < src.length then do
        let m ← copyToWritePoint m l (src.take writeSize)
        let (m, l) ← writeAdvance P m l writeSize
        writeLoop fuel m l (src.drop writeSize) (total + writeSize)
      else do
        let m ← copyToWritePoint m l src
        let (m, l) ← writeAdvance P m l src.length
        return (total + src.length, m, l)
    else .ok (total, m, l)

/-- `BufferList::Write(from, n)`, `src` being the `n` bytes at `from`: the number of bytes
written. -/
def writeBytes (m : Memory σ) (l : BufferList) (src : List UInt8) :
    Except Fault (ℕ × Memory σ × BufferList) :=
  writeLoop P (src.length + 1) m l src 0

/-- What `Recv` does with bytes the kernel puts at `WritePoint()`. -/
def fill (m : Memory σ) (l : BufferList) (src : List UInt8) :
    Except Fault (Memory σ × BufferList) := do
  let m ← copyToWritePoint m l src
  writeAdvance P m l src.length

/-- What `Send` does with `n` bytes the kernel takes from `ReadPoint()`: those bytes. -/
def drain (m : Memory σ) (l : BufferList) (n : ℕ) :
    Except Fault (List UInt8 × Memory σ × BufferList) := do
  let bytes ← copyFromReadPoint m l n
  let (m, l) ← readAdvance P m l n
  return (bytes, m, l)

/-- The loop of `BufferList::~BufferList` from `head_`, with the iterations it may still make. -/
def destroyLoop : ℕ → Memory σ → Option BufferPtr → Except Fault (Memory σ)
  | _, m, none => .ok m
  | 0, _, some _ => .error .noReturn
  | fuel + 1, m, some buffer => destroyLoop fuel (P.freeObject m buffer) (m.heap buffer).next

/-- `BufferList::~BufferList`. `FreeObject` does not change a link, so a walk that makes more
iterations than there are Buffers goes round for ever. -/
def destroy (m : Memory σ) (l : BufferList) : Except Fault (Memory σ) :=
  destroyLoop P (numBuffers + 1) m l.head

end BufferList

end ServerKit
