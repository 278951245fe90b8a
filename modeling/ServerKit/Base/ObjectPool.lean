import ServerKit.Base.Buffer
import ServerKit.Lib.Lts

/-!
# `base/object_pool.h`

`ObjectList` is the free list behind `GetObject<Buffer>()` and `FreeObject<Buffer>()`: Buffers are
made `kAllocObjectNumber` at a time, handed out from the front and taken back at the end. It is
`thread_local`, so all the `BufferList`s of a thread share one: `Thread` is that thread.
-/

namespace ServerKit

open Lib

/-- Number per `ObjectList` alloc. -/
def kAllocObjectNumber : ℕ := 100

/-- `ObjectList<Buffer>`: `free_list_`, and how many Buffers `new` has made so far. -/
structure ObjectList where
  freeList : List BufferPtr
  made : ℕ

namespace ObjectList

/-- `new Buffer()`, at an address not used before. -/
def newBuffer (m : Memory ObjectList) : Except Fault (BufferPtr × Memory ObjectList) :=
  if h : m.pool.made < numBuffers then
    let p : BufferPtr := ⟨m.pool.made, h⟩
    .ok (p, { heap := Function.update m.heap p Buffer.new,
              pool := { m.pool with made := m.pool.made + 1 } })
  else .error .badAlloc

/-- `free_list_.push_back(obj)`. -/
def pushBack (m : Memory ObjectList) (p : BufferPtr) : Memory ObjectList :=
  { m with pool := { m.pool with freeList := m.pool.freeList ++ [p] } }

/-- The loop of `ObjectList::allocate`, with the iterations left. -/
def allocateLoop : ℕ → Memory ObjectList → Except Fault (Memory ObjectList)
  | 0, m => .ok m
  | i + 1, m => do
    let (p, m) ← newBuffer m
    allocateLoop i (pushBack m p)

/-- `ObjectList::allocate`. -/
def allocate (m : Memory ObjectList) : Except Fault (Memory ObjectList) :=
  allocateLoop kAllocObjectNumber m

/-- The test at the start of `ObjectList::Get`. -/
def allocateIfEmpty (m : Memory ObjectList) : Except Fault (Memory ObjectList) :=
  if m.pool.freeList.isEmpty then allocate m else .ok m

/-- `ObjectList::Get`. -/
def get (m : Memory ObjectList) : Except Fault (BufferPtr × Memory ObjectList) := do
  let m ← allocateIfEmpty m
  match m.pool.freeList with
  | obj :: rest => return (obj, { m with pool := { m.pool with freeList := rest } })
  | [] => .error .nullPointer

/-- `ObjectList::Free`. -/
def free (m : Memory ObjectList) (obj : BufferPtr) : Memory ObjectList :=
  pushBack { m with heap := Function.update m.heap obj (m.heap obj).reset } obj

end ObjectList

/-- The repository's `GetObject<Buffer>()` and `FreeObject<Buffer>()`. -/
def objectPool : ObjectPool ObjectList where
  getObject := ObjectList.get
  freeObject := ObjectList.free

/-- A thread: its memory, and its live `BufferList`s under the names the code has for them. -/
structure Thread where
  mem : Memory ObjectList
  lists : ℕ → Option BufferList

/-- The thread's first use of the pool: `ObjectList::ObjectList`. -/
def Thread.start (h : Heap) : Except Fault Thread := do
  let m ← ObjectList.allocate { heap := h, pool := { freeList := [], made := 0 } }
  return { mem := m, lists := fun _ => none }

/-- What a thread does with the list named `i`. -/
inductive ThreadOp
  | construct (i : ℕ)
  | write (i : ℕ) (src : List UInt8)
  | read (i : ℕ) (n : ℕ)
  | destroy (i : ℕ)
deriving DecidableEq, Repr

/-- The list an operation is about. -/
def ThreadOp.list : ThreadOp → ℕ
  | construct i | write i _ | read i _ | destroy i => i

/-- One operation of the thread that returns. -/
inductive ThreadStep : Thread → ThreadOp → Thread → Prop
  | construct {t : Thread} {i : ℕ} {m : Memory ObjectList} {l : BufferList} :
      t.lists i = none → BufferList.new objectPool t.mem = .ok (m, l) →
      ThreadStep t (.construct i) ⟨m, Function.update t.lists i (some l)⟩
  | write {t : Thread} {i k : ℕ} {src : List UInt8} {m : Memory ObjectList} {l l' : BufferList} :
      t.lists i = some l → BufferList.writeBytes objectPool t.mem l src = .ok (k, m, l') →
      ThreadStep t (.write i src) ⟨m, Function.update t.lists i (some l')⟩
  | read {t : Thread} {i n k : ℕ} {bytes : List UInt8} {m : Memory ObjectList}
      {l l' : BufferList} :
      t.lists i = some l → BufferList.readBytes objectPool t.mem l n = .ok ((k, bytes), m, l') →
      ThreadStep t (.read i n) ⟨m, Function.update t.lists i (some l')⟩
  | destroy {t : Thread} {i : ℕ} {m : Memory ObjectList} {l : BufferList} :
      t.lists i = some l → BufferList.destroy objectPool t.mem l = .ok m →
      ThreadStep t (.destroy i) ⟨m, Function.update t.lists i none⟩

end ServerKit
