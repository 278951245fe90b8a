import ServerKit.Base.Verify.ListRep

/-!
# The operations of a `BufferList`

Each operation of `base/buffer.cc` on a list that represents `q` leaves a list that represents `q`
with bytes appended at the end or removed at the front, or throws when `GetObject` does. What the
list needs of the pool is `PoolSafe`: a Buffer handed out is not in the list already, nor in use
elsewhere (`ctx`).
-/

namespace ServerKit

open Lib

variable {σ : Type}

/-- A pool serving a list whose chain is `c` while the Buffers `ctx` are in use elsewhere: in a
state that satisfies `Own`, `GetObject` hands out a new Buffer, and neither `GetObject` nor
`FreeObject` touches a Buffer in use. -/
structure PoolSafe (P : ObjectPool σ) (Own : σ → List BufferPtr → Prop) (ctx : Set BufferPtr) :
    Prop where
  disjoint : ∀ {s c p}, Own s c → p ∈ c → p ∉ ctx
  getObject : ∀ {m : Memory σ} {c}, Own m.pool c →
    Outcome (· = Fault.badAlloc) (fun r => r.1 ∉ c ∧
      (∀ p, p ∈ c ∨ p ∈ ctx → r.2.heap p = m.heap p) ∧
      Own r.2.pool (c ++ [r.1])) (P.getObject m)
  freeObject : ∀ {m : Memory σ} {p c}, Own m.pool (p :: c) → p ∉ c →
    (∀ q, q ∈ c ∨ q ∈ ctx → (P.freeObject m p).heap q = m.heap q) ∧ Own (P.freeObject m p).pool c

/-- What an operation on the list leaves behind: a list that represents `q`, a pool that can still
serve it, and everything in use elsewhere untouched. -/
def Leaves (Own : σ → List BufferPtr → Prop) (ctx : Set BufferPtr) (m : Memory σ)
    (q : List UInt8) (m' : Memory σ) (l' : BufferList) : Prop :=
  (∃ c', ListRep m'.heap l' c' q ∧ Own m'.pool c') ∧ ∀ p ∈ ctx, m'.heap p = m.heap p

theorem Leaves.trans {Own : σ → List BufferPtr → Prop} {ctx : Set BufferPtr}
    {m m' m'' : Memory σ} {q q' : List UInt8} {l' l'' : BufferList} (h : Leaves Own ctx m q m' l')
    (h' : Leaves Own ctx m' q' m'' l'') : Leaves Own ctx m q' m'' l'' :=
  ⟨h'.1, fun p hp => (h'.2 p hp).trans (h.2 p hp)⟩

section Ops

variable {P : ObjectPool σ} {Own : σ → List BufferPtr → Prop} {ctx : Set BufferPtr}
  {m : Memory σ} {l : BufferList} {c : List BufferPtr} {q : List UInt8}

/-! ## Construction -/

/-- A list of one Buffer, with nothing written, represents no bytes. -/
theorem listRep_new (h : Heap) (p : BufferPtr) :
    ListRep h { readInx := 0, writeInx := 0, head := some p, read := some p, write := some p,
                writeSize := 0, readSize := 0 } [p] [] where
  ne_nil := by simp
  head := rfl
  read := rfl
  write := rfl
  nodup := by simp
  linked := by simp
  readInx_lt := by simp [kBufferSize]
  writeInx_le := by simp
  writeInx_lt := by simp [kBufferSize]
  extent := by simp
  sizes := by simp [wordAdd]
  bytes i hi := by simp at hi

theorem new_spec (hP : PoolSafe P Own ctx) (hown : Own m.pool []) :
    Outcome (· = Fault.badAlloc) (fun r => Leaves Own ctx m [] r.1 r.2) (BufferList.new P m) := by
  unfold BufferList.new
  refine (hP.getObject hown).bind fun r hr => ?_
  obtain ⟨-, hframe, hown'⟩ := hr
  exact ⟨⟨[r.1], listRep_new _ _, hown'⟩, fun p hp => hframe p (Or.inr hp)⟩

/-! ## One pass through `WritePoint` -/

theorem overwrite_below {data : ℕ → UInt8} {off i : ℕ} (src : List UInt8) (hi : i < off) :
    Memory.overwrite data off src i = data i := by
  simp [Memory.overwrite, Nat.not_le.mpr hi]

theorem overwrite_at {data : ℕ → UInt8} {off k : ℕ} {src : List UInt8} (hk : k < src.length) :
    Memory.overwrite data off src (off + k) = src[k] := by
  simp [Memory.overwrite, hk]

/-- The heap after `src` has been copied over the data of `p`. -/
def overwriteAt (h : Heap) (p : BufferPtr) (off : ℕ) (src : List UInt8) : Heap :=
  Function.update h p ((h p).setData (Memory.overwrite (h p).data off src))

theorem overwriteAt_next (h : Heap) (p : BufferPtr) (off : ℕ) (src : List UInt8)
    (r : BufferPtr) : (overwriteAt h p off src r).next = (h r).next := by
  unfold overwriteAt
  by_cases hrp : r = p
  · subst hrp; simp
  · rw [Function.update_of_ne hrp]

theorem overwriteAt_of_ne (h : Heap) {p r : BufferPtr} (off : ℕ) (src : List UInt8)
    (hr : r ≠ p) : overwriteAt h p off src r = h r := Function.update_of_ne hr _ _

/-- Bytes copied behind the written ones of the last Buffer extend the content. -/
theorem byteAt_overwriteAt {h : Heap} {cs : List BufferPtr} {p : BufferPtr} {rdx wrx : ℕ}
    {src : List UInt8} (hp : p ∉ cs) (hfit : wrx + src.length ≤ kBufferSize)
    (hext : rdx + q.length = kBufferSize * cs.length + wrx)
    (hbytes : ∀ i, i < q.length → byteAt h (cs ++ [p]) (rdx + i) = q[i]?) :
    ∀ i, i < (q ++ src).length →
      byteAt (overwriteAt h p wrx src) (cs ++ [p]) (rdx + i) = (q ++ src)[i]? := by
  intro i hi
  have hag : ∀ r ∈ cs, overwriteAt h p wrx src r = h r :=
    fun r hr => overwriteAt_of_ne h wrx src fun he => hp (by rw [← he]; exact hr)
  rcases Nat.lt_or_ge (rdx + i) (kBufferSize * cs.length) with hlow | hhigh
  · -- a Buffer before the last
    have hiq : i < q.length := by omega
    rw [byteAt_append_left _ _ _ hlow, byteAt_congr hag, ← byteAt_append_left h cs [p] hlow,
      hbytes i hiq, List.getElem?_append_left hiq]
  · obtain ⟨off, hoff⟩ := Nat.exists_eq_add_of_le hhigh
    have hsrc : (q ++ src).length = q.length + src.length := List.length_append
    have hofflt : off < kBufferSize := by omega
    rw [hoff, byteAt_last _ _ _ hofflt, overwriteAt, Function.update_self, Buffer.setData_data]
    rcases Nat.lt_or_ge i q.length with hiq | hiq
    · -- the last Buffer, before `wrx`
      have hold := hbytes i hiq
      rw [hoff, byteAt_last _ _ _ hofflt] at hold
      rw [overwrite_below src (by omega), hold, List.getElem?_append_left hiq]
    · -- the bytes just copied
      obtain ⟨k, rfl⟩ := Nat.exists_eq_add_of_le hiq
      have hk : k < src.length := by omega
      have hok : off = wrx + k := by omega
      rw [hok, overwrite_at hk, List.getElem?_append_right (by omega), Nat.add_sub_cancel_left,
        List.getElem?_eq_getElem hk]

theorem Chained.extent_snoc {h : Heap} {cs : List BufferPtr} {p : BufferPtr}
    (hr : Chained h l (cs ++ [p]) q) :
    l.readInx + q.length = kBufferSize * cs.length + l.writeInx := by
  simpa using hr.extent

theorem Chained.last_fresh {h : Heap} {cs : List BufferPtr} {p : BufferPtr}
    (hr : Chained h l (cs ++ [p]) q) : p ∉ cs :=
  fun hm => (List.nodup_append.mp hr.nodup).2.2 p hm p (by simp) rfl

/-- The bytes copied to `WritePoint()`, once counted, are appended. -/
theorem Chained.overwrite {h : Heap} {cs : List BufferPtr} {p : BufferPtr} {src : List UInt8}
    (hr : Chained h l (cs ++ [p]) q) (hfit : l.writeInx + src.length ≤ kBufferSize) :
    Chained (overwriteAt h p l.writeInx src)
      { l with writeInx := l.writeInx + src.length, writeSize := wordAdd l.writeSize src.length }
      (cs ++ [p]) (q ++ src) where
  ne_nil := hr.ne_nil
  head := hr.head
  read := hr.read
  write := hr.write
  nodup := hr.nodup
  linked := IsChain.next_congr hr.linked fun r _ => overwriteAt_next h p _ src r
  readInx_lt := hr.readInx_lt
  writeInx_le := hfit
  extent := by
    have := hr.extent_snoc
    simp only [List.length_append, List.length_cons, List.length_nil, Nat.zero_add,
      Nat.add_sub_cancel]
    omega
  sizes := by
    change wordAdd l.writeSize src.length = wordAdd l.readSize (q ++ src).length
    rw [hr.sizes, wordAdd_assoc, List.length_append]
  bytes := byteAt_overwriteAt hr.last_fresh hfit hr.extent_snoc hr.bytes

/-- A new Buffer linked behind a full one. -/
theorem Chained.link {h h' : Heap} {cs : List BufferPtr} {p r : BufferPtr}
    (hr : Chained h l (cs ++ [p]) q) (hfull : l.writeInx = kBufferSize) (hfresh : r ∉ cs ++ [p])
    (hag : ∀ x ∈ cs ++ [p], h' x = h x) :
    ListRep (Function.update h' p ((h' p).setNext (some r)))
      { l with write := some r, writeInx := 0 } (cs ++ [p] ++ [r]) q := by
  have hcs : ∀ x ∈ cs, Function.update h' p ((h' p).setNext (some r)) x = h x := fun x hx => by
    rw [Function.update_of_ne fun he => hr.last_fresh (by rw [← he]; exact hx),
      hag x (by simp [hx])]
  have hdata : ∀ x ∈ cs ++ [p],
      (Function.update h' p ((h' p).setNext (some r)) x).data = (h x).data := by
    intro x hx
    rcases List.mem_append.mp hx with hx | hx
    · rw [hcs x hx]
    · obtain rfl : x = p := by simpa using hx
      simp [hag x (by simp)]
  have hext := hr.extent_snoc
  exact {
    ne_nil := by simp
    head := by rw [hr.head]; simp [List.head?_append]
    read := by rw [hr.read]; simp [List.head?_append]
    write := by simp
    nodup := List.nodup_append.mpr ⟨hr.nodup, by simp, fun x hx y hy he => hfresh (by
      obtain rfl : y = r := by simpa using hy
      rw [← he]; exact hx)⟩
    linked := by
      rw [List.isChain_append]
      refine ⟨?_, by simp, ?_⟩
      · -- inside the old chain only the last link has changed
        have hold := List.isChain_append.mp hr.linked
        rw [List.isChain_append]
        refine ⟨IsChain.next_congr hold.1 fun x hx => by rw [hcs x hx], by simp, ?_⟩
        intro x hx y hy
        rw [hcs x (List.mem_of_getLast? hx)]
        exact hold.2.2 x hx y hy
      · intro x hx y hy
        simp only [List.getLast?_append, List.getLast?_singleton, Option.some_or, Option.mem_def,
          Option.some.injEq, List.head?_cons] at hx hy
        subst hx hy
        simp
    readInx_lt := hr.readInx_lt
    writeInx_le := Nat.zero_le _
    writeInx_lt := by change 0 < kBufferSize; simp [kBufferSize]
    extent := by
      simp only [List.length_append, List.length_cons, List.length_nil]
      unfold kBufferSize at *
      omega
    sizes := hr.sizes
    bytes := fun i hi => by
      rw [byteAt_append_left, byteAt_data_congr hdata]
      · exact hr.bytes i hi
      · simp only [List.length_append, List.length_cons, List.length_nil]
        unfold kBufferSize at *
        omega }

/-- **One pass of `Write`**, or of `Recv`: at most `WriteableSize()` bytes put at `WritePoint()`
and counted by `WriteAdvance` are appended. -/
theorem fill_spec (hP : PoolSafe P Own ctx) (hr : ListRep m.heap l c q) (hown : Own m.pool c)
    {src : List UInt8} (hfit : src.length ≤ l.writeableSize) :
    Outcome (· = Fault.badAlloc) (fun r => Leaves Own ctx m (q ++ src) r.1 r.2)
      (BufferList.fill P m l src) := by
  obtain ⟨cs, p, rfl⟩ : ∃ cs p, c = cs ++ [p] :=
    ⟨_, _, (List.dropLast_append_getLast hr.ne_nil).symm⟩
  rw [hr.writeableSize_eq] at hfit
  have hwlt := hr.writeInx_lt
  have hwrite : l.write = some p := by simpa using hr.write
  have hcount : wordAdd l.writeInx src.length = l.writeInx + src.length :=
    wordAdd_eq_of_lt (by unfold kBufferSize at *; omega)
  have hctx : ∀ x ∈ ctx, x ≠ p := fun x hx he =>
    hP.disjoint hown (p := p) (by simp) (by rw [← he]; exact hx)
  have hroom : l.writeInx + src.length ≤ kBufferSize := by omega
  have hcopied := hr.toChained.overwrite hroom
  have hcopy : BufferList.copyToWritePoint m l src =
      .ok { m with heap := overwriteAt m.heap p l.writeInx src } := by
    simp only [BufferList.copyToWritePoint, hwrite, deref, Memory.copyIn, bind, Except.bind]
    rw [if_pos (by omega)]
    rfl
  unfold BufferList.fill
  rw [hcopy]
  simp only [bind, Except.bind, BufferList.writeAdvance, hcount]
  split
  · -- the Buffer is full: a new one is linked behind it
    rename_i hfull
    refine (hP.getObject (m := { m with heap := overwriteAt m.heap p l.writeInx src }) hown).bind
      fun r hget => ?_
    obtain ⟨hfresh, hframe, hown'⟩ := hget
    simp only [hwrite, deref, Outcome.pure_iff]
    refine ⟨⟨_, hcopied.link hfull hfresh fun x hx => hframe x (Or.inl hx),
      hown'⟩, fun x hx => ?_⟩
    simp only [Memory.setNext]
    rw [Function.update_of_ne (hctx x hx), hframe x (Or.inr hx)]
    exact overwriteAt_of_ne _ _ _ (hctx x hx)
  · rename_i hroom
    refine ⟨⟨_, ⟨hcopied, ?_⟩, hown⟩, fun x hx => overwriteAt_of_ne _ _ _ (hctx x hx)⟩
    change l.writeInx + src.length < kBufferSize
    have : l.writeInx + src.length ≠ kBufferSize := hroom
    omega

/-! ## One pass through `ReadPoint` -/

/-- The contiguous bytes at `ReadPoint()`. -/
theorem copyFromReadPoint_eq (hr : ListRep m.heap l c q) {n : ℕ}
    (hn : n ≤ l.currentBufferReadSize) :
    BufferList.copyFromReadPoint m l n = .ok (q.take n) := by
  obtain ⟨p, cs, rfl⟩ := List.exists_cons_of_ne_nil hr.ne_nil
  have hread : l.read = some p := by simpa using hr.read
  have hle := hr.currentBufferReadSize_add_le
  have hlen := hr.currentBufferReadSize_le
  simp only [BufferList.copyFromReadPoint, hread, deref, Memory.copyOut, bind, Except.bind]
  rw [if_pos (by omega)]
  congr 1
  refine List.ext_getElem? fun i => ?_
  rcases Nat.lt_or_ge i n with hi | hi
  · rw [List.getElem?_take_of_lt hi, ← hr.bytes i (by omega), byteAt_head _ _ _ (by omega)]
    simp [hi]
  · rw [List.getElem?_eq_none (by simpa using hi), List.getElem?_eq_none (by simp; omega)]

/-- What is counted as read is no longer in the queue. -/
theorem ListRep.sizes_drop {h : Heap} (hr : ListRep h l c q) {n : ℕ} (hn : n ≤ q.length) :
    l.writeSize = wordAdd (wordAdd l.readSize n) (q.drop n).length := by
  rw [hr.sizes, wordAdd_assoc, List.length_drop, Nat.add_sub_cancel' hn]

/-- Reading inside the first Buffer. -/
theorem ListRep.consume {h : Heap} (hr : ListRep h l c q) {n : ℕ} (hn : n ≤ q.length)
    (hroom : l.readInx + n < kBufferSize) :
    ListRep h { l with readInx := l.readInx + n, readSize := wordAdd l.readSize n } c
      (q.drop n) where
  ne_nil := hr.ne_nil
  head := hr.head
  read := hr.read
  write := hr.write
  nodup := hr.nodup
  linked := hr.linked
  readInx_lt := hroom
  writeInx_le := hr.writeInx_le
  writeInx_lt := hr.writeInx_lt
  extent := by
    have := hr.extent
    simp only [List.length_drop]
    omega
  sizes := hr.sizes_drop hn
  bytes i hi := by
    simp only [List.length_drop] at hi
    rw [List.getElem?_drop, ← hr.bytes (n + i) (by omega), Nat.add_assoc]

/-- Reading the first Buffer to its end: the chain goes on behind it. -/
theorem ListRep.pop {h h' : Heap} {p p' : BufferPtr} {cs : List BufferPtr}
    (hr : ListRep h l (p :: p' :: cs) q) {n : ℕ} (hn : n ≤ q.length)
    (hend : l.readInx + n = kBufferSize) (hag : ∀ x ∈ p' :: cs, h' x = h x) :
    ListRep h' { l with readInx := 0, readSize := wordAdd l.readSize n, read := some p',
                        head := some p' } (p' :: cs) (q.drop n) where
  ne_nil := by simp
  head := rfl
  read := rfl
  write := by rw [← List.getLast?_cons_cons]; exact hr.write
  nodup := (List.nodup_cons.mp hr.nodup).2
  linked := IsChain.next_congr (List.isChain_cons_cons.mp hr.linked).2 fun x hx => by
    rw [hag x hx]
  readInx_lt := by change 0 < kBufferSize; simp [kBufferSize]
  writeInx_le := hr.writeInx_le
  writeInx_lt := hr.writeInx_lt
  extent := by
    have := hr.extent
    simp only [List.length_cons, List.length_drop] at this ⊢
    unfold kBufferSize at *
    omega
  sizes := hr.sizes_drop hn
  bytes i hi := by
    simp only [List.length_drop] at hi
    rw [byteAt_congr hag, ← byteAt_cons h p, ← hend, List.getElem?_drop,
      ← hr.bytes (n + i) (by omega)]
    congr 1
    change l.readInx + n + (0 + i) = l.readInx + (n + i)
    omega

/-- **One pass of `Read`**, or of `Send`: at most the contiguous bytes at `ReadPoint()`, taken and
counted by `ReadAdvance`, are the first unread ones and are removed. Nothing can fault. -/
theorem drain_spec (hP : PoolSafe P Own ctx) (hr : ListRep m.heap l c q) (hown : Own m.pool c)
    {n : ℕ} (hn : n ≤ l.currentBufferReadSize) :
    Outcome (fun _ => False)
      (fun r => r.1 = q.take n ∧ Leaves Own ctx m (q.drop n) r.2.1 r.2.2)
      (BufferList.drain P m l n) := by
  have hle := hr.currentBufferReadSize_add_le
  have hlen := hr.currentBufferReadSize_le
  have hcount : wordAdd l.readInx n = l.readInx + n :=
    wordAdd_eq_of_lt (by unfold kBufferSize at *; omega)
  unfold BufferList.drain
  rw [copyFromReadPoint_eq hr hn]
  simp only [bind, Except.bind, BufferList.readAdvance, hcount]
  by_cases hend : l.readInx + n = kBufferSize
  · -- the first Buffer has been read out: it is popped
    match c, hr, hown with
    | [p], hr, _ =>
      -- not when it is also the last one, which always has room
      have hext := hr.extent
      have hw := hr.writeInx_lt
      simp only [List.length_cons, List.length_nil] at hext
      omega
    | p :: p' :: cs, hr, hown =>
      have hread : l.read = some p := by simpa using hr.read
      have hnext : (m.heap p).next = some p' := (List.isChain_cons_cons.mp hr.linked).1
      obtain ⟨hframe, hown'⟩ := hP.freeObject hown (List.nodup_cons.mp hr.nodup).1
      simp only [if_pos hend, hread, deref, hnext, pure, Except.pure, Outcome.ok_iff]
      exact ⟨trivial, ⟨_, hr.pop (by omega) hend fun x hx => hframe x (Or.inl hx), hown'⟩,
        fun x hx => hframe x (Or.inr hx)⟩
  · simp only [if_neg hend, pure, Except.pure, Outcome.ok_iff]
    exact ⟨trivial, ⟨c, hr.consume (by omega) (by omega), hown⟩, fun _ _ => rfl⟩

/-! ## The loops -/

/-- One iteration of `Write` that does not finish. -/
theorem writeLoop_succ (fuel : ℕ) (m : Memory σ) (l : BufferList) {src : List UInt8} (total : ℕ)
    (h : l.writeableSize < src.length) :
    BufferList.writeLoop P (fuel + 1) m l src total =
      (BufferList.fill P m l (src.take l.writeableSize) >>= fun r =>
        BufferList.writeLoop P fuel r.1 r.2 (src.drop l.writeableSize)
          (total + l.writeableSize)) := by
  have hlen : (src.take l.writeableSize).length = l.writeableSize := by
    rw [List.length_take]; omega
  simp only [BufferList.writeLoop, BufferList.fill, hlen, if_pos h, bind_assoc]
  rw [if_pos (by omega)]

/-- The last iteration of `Write`. -/
theorem writeLoop_last (fuel : ℕ) (m : Memory σ) (l : BufferList) {src : List UInt8} (total : ℕ)
    (hpos : 0 < src.length) (h : src.length ≤ l.writeableSize) :
    BufferList.writeLoop P (fuel + 1) m l src total =
      (BufferList.fill P m l src >>= fun r => .ok (total + src.length, r.1, r.2)) := by
  simp only [BufferList.writeLoop, BufferList.fill, if_pos hpos, if_neg (Nat.not_lt.mpr h),
    bind_assoc]
  rfl

/-- Every iteration of `Write` copies at least one byte, so as many iterations as there are bytes
are enough. -/
theorem writeLoop_spec (hP : PoolSafe P Own ctx) :
    ∀ (fuel : ℕ) {m : Memory σ} {l : BufferList} {c : List BufferPtr} {q : List UInt8}
      (src : List UInt8) (total : ℕ), ListRep m.heap l c q → Own m.pool c → src.length < fuel →
      Outcome (· = Fault.badAlloc)
        (fun r => r.1 = total + src.length ∧ Leaves Own ctx m (q ++ src) r.2.1 r.2.2)
        (BufferList.writeLoop P fuel m l src total) := by
  intro fuel
  induction fuel with
  | zero => intro m l c q src total _ _ hlt; omega
  | succ fuel ih =>
    intro m l c q src total hr hown hlt
    have hpos := hr.writeableSize_pos
    rcases Nat.lt_or_ge l.writeableSize src.length with hbig | hfits
    · rw [writeLoop_succ fuel m l total hbig]
      refine (fill_spec hP hr hown (by rw [List.length_take]; omega)).bind fun r hl => ?_
      obtain ⟨⟨c', hr', hown'⟩, _⟩ := id hl
      refine (ih (src.drop l.writeableSize) (total + l.writeableSize) hr' hown'
        (by rw [List.length_drop]; omega)).mono fun r' h' => ?_
      refine ⟨by rw [h'.1, List.length_drop]; omega, ?_⟩
      have := hl.trans h'.2
      rwa [List.append_assoc, List.take_append_drop] at this
    · rcases Nat.eq_zero_or_pos src.length with h0 | hsrc
      · obtain rfl := List.length_eq_zero_iff.mp h0
        simp only [BufferList.writeLoop, List.length_nil, Nat.lt_irrefl, if_false, Nat.add_zero,
          Outcome.ok_iff, List.append_nil]
        exact ⟨trivial, ⟨c, hr, hown⟩, fun _ _ => rfl⟩
      · rw [writeLoop_last fuel m l total hsrc hfits]
        exact (fill_spec hP hr hown hfits).bind fun r hl => ⟨rfl, hl⟩

/-- **`BufferList::Write`** returns `n` and appends the `n` bytes. -/
theorem writeBytes_spec (hP : PoolSafe P Own ctx) (hr : ListRep m.heap l c q)
    (hown : Own m.pool c) (src : List UInt8) :
    Outcome (· = Fault.badAlloc)
      (fun r => r.1 = src.length ∧ Leaves Own ctx m (q ++ src) r.2.1 r.2.2)
      (BufferList.writeBytes P m l src) := by
  unfold BufferList.writeBytes
  refine (writeLoop_spec hP _ src 0 hr hown (Nat.lt_succ_self _)).mono fun r h => ?_
  rwa [Nat.zero_add] at h

/-- One iteration of `Read` that does not finish. -/
theorem readLoop_succ (fuel : ℕ) (m : Memory σ) (l : BufferList) {n : ℕ} (out : List UInt8)
    (hsize : l.readableSize ≠ 0) (h : l.currentBufferReadSize < n) :
    BufferList.readLoop P (fuel + 1) m l n out =
      (BufferList.drain P m l l.currentBufferReadSize >>= fun r =>
        BufferList.readLoop P fuel r.2.1 r.2.2 (n - l.currentBufferReadSize) (out ++ r.1)) := by
  simp only [BufferList.readLoop, BufferList.drain, if_neg hsize, if_pos h, bind_assoc]
  rw [if_pos (by omega)]
  rfl

/-- The last iteration of `Read`. -/
theorem readLoop_last (fuel : ℕ) (m : Memory σ) (l : BufferList) {n : ℕ} (out : List UInt8)
    (hpos : 0 < n) (hsize : l.readableSize ≠ 0) (h : n ≤ l.currentBufferReadSize) :
    BufferList.readLoop P (fuel + 1) m l n out =
      (BufferList.drain P m l n >>= fun r => .ok ((0, out ++ r.1), r.2.1, r.2.2)) := by
  simp only [BufferList.readLoop, BufferList.drain, if_pos hpos, if_neg hsize,
    if_neg (Nat.not_lt.mpr h), bind_assoc]
  rfl

/-- Every iteration of `Read` copies at least one byte, so as many iterations as bytes are asked
for are enough. -/
theorem readLoop_spec (hP : PoolSafe P Own ctx) :
    ∀ (fuel : ℕ) {m : Memory σ} {l : BufferList} {c : List BufferPtr} {q : List UInt8} (n : ℕ)
      (out : List UInt8), ListRep m.heap l c q → Own m.pool c → n < fuel →
      Outcome (fun _ => False)
        (fun r => r.1.1 = n - q.length ∧ r.1.2 = out ++ q.take n ∧
          Leaves Own ctx m (q.drop n) r.2.1 r.2.2)
        (BufferList.readLoop P fuel m l n out) := by
  intro fuel
  induction fuel with
  | zero => intro m l c q n out _ _ hlt; omega
  | succ fuel ih =>
    intro m l c q n out hr hown hlt
    rcases Nat.eq_zero_or_pos n with rfl | hn
    · simp only [BufferList.readLoop, Nat.lt_irrefl, if_false, Outcome.ok_iff, List.take_zero,
        List.append_nil, List.drop_zero]
      exact ⟨by omega, trivial, ⟨c, hr, hown⟩, fun _ _ => rfl⟩
    by_cases hq : q = []
    · subst hq
      have hsize : l.readableSize = 0 := hr.readableSize_eq
      simp only [BufferList.readLoop, if_pos hn, if_pos hsize, Outcome.ok_iff, List.length_nil,
        List.take_nil, List.drop_nil, List.append_nil]
      exact ⟨by omega, trivial, ⟨c, hr, hown⟩, fun _ _ => rfl⟩
    · have hqpos : 0 < q.length := List.length_pos_iff.mpr hq
      have hsize : l.readableSize ≠ 0 := by rw [hr.readableSize_eq]; omega
      have hpos := hr.currentBufferReadSize_pos hq
      have hle := hr.currentBufferReadSize_le
      rcases Nat.lt_or_ge l.currentBufferReadSize n with hbig | hfits
      · rw [readLoop_succ fuel m l out hsize hbig]
        refine (drain_spec hP hr hown (Nat.le_refl _)).bind fun r hl => ?_
        obtain ⟨hbytes, ⟨c', hr', hown'⟩, _⟩ := id hl
        refine (ih (n - l.currentBufferReadSize) (out ++ r.1) hr' hown' (by omega)).mono
          fun r' h' => ?_
        obtain ⟨hrest, hout, hleaves⟩ := h'
        refine ⟨by rw [hrest, List.length_drop]; omega, ?_, ?_⟩
        · rw [hout, hbytes, List.append_assoc, ← List.take_add, Nat.add_sub_cancel' hbig.le]
        · have := hl.2.trans hleaves
          rwa [List.drop_drop, Nat.add_sub_cancel' hbig.le] at this
      · rw [readLoop_last fuel m l out hn hsize hfits]
        refine (drain_spec hP hr hown hfits).bind fun r hl => ?_
        exact ⟨show 0 = n - q.length by omega, by rw [← hl.1], hl.2⟩

/-- **`BufferList::Read`** returns the smaller of `n` and the number of unread bytes, and delivers
the first ones. -/
theorem readBytes_spec (hP : PoolSafe P Own ctx) (hr : ListRep m.heap l c q)
    (hown : Own m.pool c) (n : ℕ) :
    Outcome (fun _ => False)
      (fun r => r.1 = (min n q.length, q.take n) ∧ Leaves Own ctx m (q.drop n) r.2.1 r.2.2)
      (BufferList.readBytes P m l n) := by
  unfold BufferList.readBytes
  refine (readLoop_spec hP _ n [] hr hown (Nat.lt_succ_self _)).bind fun r h => ?_
  obtain ⟨hrest, hout, hleaves⟩ := h
  refine ⟨Prod.ext ?_ hout, hleaves⟩
  change n - r.1.1 = min n q.length
  omega

end Ops

end ServerKit
