import ServerKit.Base.Buffer
import Mathlib.Data.List.Nodup
import Mathlib.Data.List.Chain
import Mathlib.Data.Fintype.Card

/-!
# What a `BufferList` represents

`ListRep h l c q`: in the heap `h`, the fields `l` describe a list whose Buffers are the chain `c`
and whose unread bytes are `q`. The operations of `base/buffer.cc` are specified against it once:
`fill_spec` and `drain_spec` for one pass through `WritePoint` and `ReadPoint`, and
`writeBytes_spec` and `readBytes_spec` for the loops made of such passes.
-/

namespace ServerKit

open Lib

/-! ## Bytes of a chain of Buffers -/

/-- The byte at offset `j` of the Buffers of a chain, laid end to end. -/
def byteAt (h : Heap) (c : List BufferPtr) (j : ℕ) : Option UInt8 :=
  ((c)[j / kBufferSize]?).map fun p => (h p).data (j % kBufferSize)

/-- Only the data of the chain's Buffers matters. -/
theorem byteAt_data_congr {h h' : Heap} {c : List BufferPtr}
    (hag : ∀ p ∈ c, (h' p).data = (h p).data) (j : ℕ) : byteAt h' c j = byteAt h c j := by
  unfold byteAt
  cases hc : (c)[j / kBufferSize]? with
  | none => rfl
  | some p => simp [hag p (List.mem_of_getElem? hc)]

theorem byteAt_congr {h h' : Heap} {c : List BufferPtr} (hag : ∀ p ∈ c, h' p = h p) (j : ℕ) :
    byteAt h' c j = byteAt h c j :=
  byteAt_data_congr (fun p hp => by rw [hag p hp]) j

theorem byteAt_head (h : Heap) (p : BufferPtr) (c : List BufferPtr) {j : ℕ}
    (hj : j < kBufferSize) : byteAt h (p :: c) j = some ((h p).data j) := by
  simp [byteAt, Nat.div_eq_of_lt hj, Nat.mod_eq_of_lt hj]

theorem byteAt_cons (h : Heap) (p : BufferPtr) (c : List BufferPtr) (j : ℕ) :
    byteAt h (p :: c) (kBufferSize + j) = byteAt h c j := by
  have hdiv : (kBufferSize + j) / kBufferSize = j / kBufferSize + 1 := by
    unfold kBufferSize
    omega
  have hmod : (kBufferSize + j) % kBufferSize = j % kBufferSize := by
    unfold kBufferSize
    omega
  simp [byteAt, hdiv, hmod]

theorem byteAt_append_left (h : Heap) (c : List BufferPtr) (d : List BufferPtr) {j : ℕ}
    (hj : j < kBufferSize * c.length) : byteAt h (c ++ d) j = byteAt h c j := by
  have hlt : j / kBufferSize < c.length := Nat.div_lt_of_lt_mul hj
  simp [byteAt, List.getElem?_append_left hlt]

theorem byteAt_last (h : Heap) (c : List BufferPtr) (p : BufferPtr) {j : ℕ}
    (hj : j < kBufferSize) :
    byteAt h (c ++ [p]) (kBufferSize * c.length + j) = some ((h p).data j) := by
  have hdiv : (kBufferSize * c.length + j) / kBufferSize = c.length := by
    unfold kBufferSize at *
    omega
  have hmod : (kBufferSize * c.length + j) % kBufferSize = j := by
    unfold kBufferSize at *
    omega
  simp [byteAt, hdiv, hmod]

/-! ## The representation -/

/-- The fields `l` describe the chain of Buffers `c` holding the unread bytes `q`. The chain is what
`next_` links together from `head_` to `write_`; what `next_` holds in the Buffer `write_` points to
is left open. The last Buffer may be full. -/
structure Chained (h : Heap) (l : BufferList) (c : List BufferPtr) (q : List UInt8) : Prop where
  ne_nil : c ≠ []
  head : l.head = c.head?
  read : l.read = c.head?
  write : l.write = c.getLast?
  nodup : c.Nodup
  linked : c.IsChain fun a b => (h a).next = some b
  readInx_lt : l.readInx < kBufferSize
  writeInx_le : l.writeInx ≤ kBufferSize
  extent : l.readInx + q.length = kBufferSize * (c.length - 1) + l.writeInx
  sizes : l.writeSize = wordAdd l.readSize q.length
  bytes : ∀ i, i < q.length → byteAt h c (l.readInx + i) = q[i]?

/-- What holds between two operations: the last Buffer has room. -/
structure ListRep (h : Heap) (l : BufferList) (c : List BufferPtr) (q : List UInt8) : Prop extends
    Chained h l c q where
  writeInx_lt : l.writeInx < kBufferSize

theorem IsChain.next_congr {h h' : Heap} {c : List BufferPtr}
    (hc : c.IsChain fun a b => (h a).next = some b) (hag : ∀ p ∈ c, (h' p).next = (h p).next) :
    c.IsChain fun a b => (h' a).next = some b := by
  refine List.isChain_iff_getElem.mpr fun i hi => ?_
  rw [hag _ (List.getElem_mem _)]
  exact List.isChain_iff_getElem.mp hc i hi

namespace ListRep

variable {h h' : Heap} {l : BufferList} {c : List BufferPtr} {q : List UInt8}

/-- Only the Buffers of the chain matter. -/
theorem congr (hr : ListRep h l c q) (hag : ∀ p ∈ c, h' p = h p) : ListRep h' l c q where
  ne_nil := hr.ne_nil
  head := hr.head
  read := hr.read
  write := hr.write
  nodup := hr.nodup
  linked := IsChain.next_congr hr.linked fun p hp => by rw [hag p hp]
  readInx_lt := hr.readInx_lt
  writeInx_le := hr.writeInx_le
  writeInx_lt := hr.writeInx_lt
  extent := hr.extent
  sizes := hr.sizes
  bytes i hi := by rw [byteAt_congr hag]; exact hr.bytes i hi

/-- The unread bytes fit in the address space. -/
theorem length_lt (hr : ListRep h l c q) : q.length < 2 ^ 64 := by
  have hcard : c.length ≤ numBuffers := by simpa using hr.nodup.length_le_card
  have hpos : 0 < c.length := List.length_pos_iff.mpr hr.ne_nil
  have hext := hr.extent
  have hw := hr.writeInx_lt
  unfold kBufferSize numBuffers at *
  omega

theorem readableSize_eq (hr : ListRep h l c q) : l.readableSize = q.length := by
  unfold BufferList.readableSize
  rw [hr.sizes, wordSub_wordAdd hr.length_lt]

theorem writeableSize_eq (hr : ListRep h l c q) :
    l.writeableSize = kBufferSize - l.writeInx :=
  wordSub_eq_of_le hr.writeInx_lt.le (by unfold kBufferSize; omega)

theorem writeableSize_pos (hr : ListRep h l c q) : 1 ≤ l.writeableSize := by
  have := hr.writeInx_lt
  rw [hr.writeableSize_eq]
  omega

/-- The contiguous bytes at `ReadPoint()`: all the unread bytes when the chain is one Buffer, and
the rest of the first Buffer otherwise. -/
theorem currentBufferReadSize_eq (hr : ListRep h l c q) :
    l.currentBufferReadSize = if c.length = 1 then q.length else kBufferSize - l.readInx := by
  have hext := hr.extent
  have hw := hr.writeInx_lt
  have hrd := hr.readInx_lt
  unfold BufferList.currentBufferReadSize
  rw [hr.read, hr.write]
  match c, hr.ne_nil, hr.nodup with
  | [p], _, _ =>
    simp only [List.length_cons, List.length_nil] at hext
    rw [if_pos (by simp), if_pos (by simp), wordSub_eq_of_le (by omega)
      (by unfold kBufferSize at *; omega)]
    omega
  | p :: p' :: c, _, hnd =>
    have hne : p ≠ (p' :: c).getLast (by simp) := fun he =>
      (List.nodup_cons.mp hnd).1 (he ▸ List.getLast_mem _)
    rw [if_neg (by simpa [List.getLast?_cons_cons, List.getLast?_eq_some_getLast] using hne),
      if_neg (by simp)]
    exact wordSub_eq_of_le hrd.le (by unfold kBufferSize; omega)

theorem currentBufferReadSize_le (hr : ListRep h l c q) : l.currentBufferReadSize ≤ q.length := by
  have hext := hr.extent
  have hpos : 0 < c.length := List.length_pos_iff.mpr hr.ne_nil
  rw [hr.currentBufferReadSize_eq]
  split
  · exact Nat.le_refl _
  · unfold kBufferSize at *
    omega

theorem currentBufferReadSize_add_le (hr : ListRep h l c q) :
    l.readInx + l.currentBufferReadSize ≤ kBufferSize := by
  have hext := hr.extent
  have hw := hr.writeInx_lt
  have hrd := hr.readInx_lt
  rw [hr.currentBufferReadSize_eq]
  split
  · rename_i h1
    simp only [h1, Nat.sub_self, Nat.mul_zero, Nat.zero_add] at hext
    omega
  · omega

theorem currentBufferReadSize_pos (hr : ListRep h l c q) (hq : q ≠ []) :
    1 ≤ l.currentBufferReadSize := by
  have hpos : 0 < q.length := List.length_pos_iff.mpr hq
  have hrd := hr.readInx_lt
  rw [hr.currentBufferReadSize_eq]
  split <;> omega

end ListRep

end ServerKit
