import ServerKit.Base.Verify.ChunkChain

/-!
# What a `YQueue` represents

`QueueRep` ties a `YQueue` with at least one element to its layout, the numbers of its front and
back element, and the values written: it is a `ChunkChain` whose back element is the last one.
-/

namespace ServerKit

variable {T : Type} {N : ℕ}

/-- The queue `q` has the layout `L`; its front element has the number `first` and its back element
the number `last`; and the elements from `first` on have been given the values of `items`. -/
structure QueueRep (q : YQueue T N) (L : Layout) (first last : ℕ) (items : List T) : Prop where
  nodup : L.chunks.Nodup
  length_pos : 0 < L.chunks.length
  allocated : ∀ p ∈ L.chunks, ∃ c, q.mem p = some c
  linked : ∀ {m a b}, L.chunks[m]? = some a → L.chunks[m + 1]? = some b →
    q.nextOf a = some b ∧ q.prevOf b = some a
  spare : ∀ {p}, q.spareChunk = some p → p ∉ L.chunks ∧ ∃ c, q.mem p = some c
  beginChunk : q.beginChunk = L.chunks[0]?
  beginPos : L.base + q.beginPos = first
  beginPos_lt : q.beginPos < N
  endChunk : q.endChunk = L.chunks[L.chunks.length - 1]?
  endPos : L.base + N * (L.chunks.length - 1) + q.endPos = last + 1
  endPos_lt : q.endPos < N
  back : q.backAddr = L.slot N last
  le : first ≤ last
  length_le : items.length ≤ last + 1
  values : ∀ {i v}, first ≤ i → items[i]? = some v → (L.slot N i).bind q.load = some v

namespace QueueRep

variable {q : YQueue T N} {L : Layout} {first last : ℕ} {items : List T}


theorem chain (h : QueueRep q L first last items) : ChunkChain q L first (last + 1) items :=
  { h with le := h.le.trans (Nat.le_succ _) }

/-- A chain with its back element. -/
theorem of_chain (h : ChunkChain q L first (last + 1) items) (hle : first ≤ last)
    (hback : q.backAddr = L.slot N last) : QueueRep q L first last items :=
  { h with back := hback, le := hle }

/-- The numbers from the front element to one behind the back element are in range. -/
theorem inRange (h : QueueRep q L first last items) {i : ℕ} (hi : first ≤ i) (hle : i ≤ last + 1) :
    L.InRange N i := h.chain.inRange hi hle

theorem frontAddr_eq (h : QueueRep q L first last items) : q.frontAddr = L.slot N first :=
  h.chain.frontAddr_eq

/-- The addresses of the elements are different. -/
theorem slot_inj (h : QueueRep q L first last items) {i j : ℕ} (hi : first ≤ i)
    (hil : i ≤ last + 1) (hj : first ≤ j) (hjl : j ≤ last + 1) (heq : L.slot N i = L.slot N j) :
    i = j := h.chain.slot_inj hi hil hj hjl heq

theorem pos (h : QueueRep q L first last items) : 0 < N := h.chain.pos

/-- The back element: its chunk and position. -/
theorem back_eq (h : QueueRep q L first last items) :
    ∃ p c, q.backChunk = some p ∧ p ∈ L.chunks ∧ q.mem p = some c ∧ q.backPos < N ∧
      L.slot N last = some (p, q.backPos) ∧ L.chunks[(last - L.base) / N]? = some p ∧
      q.backPos = (last - L.base) % N := by
  obtain ⟨p, k, hslot, hp, hk, hget, hmod⟩ :=
    L.slot_eq_some h.pos (h.inRange h.le (Nat.le_succ _))
  obtain ⟨c, hc⟩ := h.allocated p hp
  have hback := h.back
  rw [hslot, YQueue.backAddr, Option.map_eq_some_iff] at hback
  obtain ⟨p', hp', heq⟩ := hback
  obtain ⟨rfl, rfl⟩ := Prod.mk.inj heq
  exact ⟨p', c, hp', hp, hc, hk, hslot, hget, hmod⟩

/-- Fewer values. -/
theorem take (h : QueueRep q L first last items) (n : ℕ) :
    QueueRep q L first last (items.take n) := of_chain (h.chain.take n) h.le h.back

/-- The same queue seen through other memory that agrees on the links, and on the elements that
have values. -/
theorem congr {q' : YQueue T N} {items' : List T} (h : QueueRep q L first last items)
    (hfields : q' = { q with mem := q'.mem })
    (halloc : ∀ {p c}, q.mem p = some c → ∃ c', q'.mem p = some c')
    (hnext : ∀ p, q'.nextOf p = q.nextOf p) (hprev : ∀ p, q'.prevOf p = q.prevOf p)
    (hlen : items'.length ≤ last + 1)
    (hvalues : ∀ {i v}, first ≤ i → items'[i]? = some v → (L.slot N i).bind q'.load = some v) :
    QueueRep q' L first last items' := by
  rw [hfields]
  exact
    { h with
      allocated := fun p hp => by
        obtain ⟨c, hc⟩ := h.allocated p hp
        exact halloc hc
      linked := fun {m a b} ha hb => by
        obtain ⟨h₁, h₂⟩ := h.linked ha hb
        exact ⟨(hnext a).trans h₁, (hprev b).trans h₂⟩
      spare := fun {p} hp => by
        obtain ⟨h₁, c, hc⟩ := h.spare hp
        exact ⟨h₁, halloc hc⟩
      length_le := hlen
      values := hvalues }

/-! ## The operations -/

theorem setBack_spareChunk {q' : YQueue T N} {v : T} (h : q.setBack v = some q') :
    q'.spareChunk = q.spareChunk := by
  rw [YQueue.setBack, YQueue.modify] at h
  split at h
  · simp only [Option.bind_eq_bind, Option.bind_eq_some_iff, Option.pure_def,
      Option.some.injEq] at h
    obtain ⟨p, -, c, -, rfl⟩ := h
    rfl
  · cases h

/-- **`Back() = v`** gives the back element the value `v`. -/
theorem setBack_spec (h : QueueRep q L first last items) (hlen : items.length = last) (v : T) :
    ∃ q', q.setBack v = some q' ∧ QueueRep q' L first last (items ++ [v]) ∧
      ∀ p, q.mem p = none → q'.mem p = none := by
  obtain ⟨p, c, hback, hp, hc, hpos, hslot, -, -⟩ := h.back_eq
  have hmem : ∀ (f : Chunk T → Option ChunkPtr), f (c.setValue q.backPos v) = f c → ∀ p',
      (Function.update q.mem p (some (c.setValue q.backPos v)) p').bind f = (q.mem p').bind f := by
    intro f hf p'
    by_cases hp' : p' = p
    · subst hp'; rw [Function.update_self, hc]; exact hf
    · rw [Function.update_of_ne hp']
  refine ⟨{ q with mem := Function.update q.mem p (some (c.setValue q.backPos v)) }, ?_, ?_, ?_⟩
  · rw [YQueue.setBack, if_pos hpos, YQueue.modify, hback]
    simp [hc]
  · refine h.congr rfl ?_ (hmem Chunk.next rfl) (hmem Chunk.prev rfl)
      (by rw [List.length_append, List.length_singleton]; omega) ?_
    · intro p' c' hc'
      by_cases hp' : p' = p
      · subst hp'; exact ⟨_, Function.update_self ..⟩
      · exact ⟨c', (Function.update_of_ne hp' _ _).trans hc'⟩
    · intro i v' hi hv'
      have hile : i < last + 1 := by
        have := (List.getElem?_eq_some_iff.mp hv').1
        rw [List.length_append, List.length_singleton] at this
        omega
      by_cases hil : i = last
      · subst hil
        obtain rfl : v = v' := by simpa [← hlen] using hv'
        rw [hslot]
        simp [YQueue.load, Chunk.setValue]
      · -- another element is at another address
        rw [List.getElem?_append_left (by omega)] at hv'
        obtain ⟨p', k', hslot', -, -, -, -⟩ := L.slot_eq_some h.pos (h.inRange hi hile.le)
        have hne : (p', k') ≠ (p, q.backPos) := by
          intro heq
          refine hil (h.slot_inj hi hile.le h.le (Nat.le_succ _) ?_)
          rw [hslot', hslot, heq]
        have hload := h.values hi hv'
        rw [hslot'] at hload ⊢
        simp only [Option.bind_some, YQueue.load] at hload ⊢
        by_cases hp' : p' = p
        · subst hp'
          have hk : k' ≠ q.backPos := fun hk => hne (by rw [hk])
          rw [Function.update_self]
          rw [hc] at hload
          simpa [Chunk.setValue, Function.update_of_ne hk] using hload
        · rwa [Function.update_of_ne hp']
  · intro p' hp'
    have : p' ≠ p := fun he => by rw [he, hc] at hp'; cases hp'
    exact (Function.update_of_ne this _ _).trans hp'

/-- **`Push()`** adds an element. The addresses of the others stay. -/
theorem push_spec (h : QueueRep q L first last items) {p : ChunkPtr} (hp : q.mem p = none) :
    ∃ q' L', q.push p = some q' ∧ QueueRep q' L' first (last + 1) items ∧
      ∀ i, first ≤ i → i ≤ last + 1 → L'.slot N i = L.slot N i := by
  obtain ⟨q', L', hrun, hchain, hback, hslot, -⟩ := h.chain.push_spec hp
  exact ⟨q', L', hrun, of_chain hchain (h.le.trans (Nat.le_succ _)) hback, hslot⟩

/-- **`Pop()`** drops the front element. The addresses of the others stay. -/
theorem pop_spec (h : QueueRep q L first last items) (hlt : first < last) :
    ∃ q' L', q.pop = some q' ∧ QueueRep q' L' (first + 1) last items ∧
      ∀ i, first + 1 ≤ i → L'.slot N i = L.slot N i := by
  obtain ⟨q', L', hrun, hchain, hback, hslot, -⟩ := h.chain.pop_spec (Nat.lt_succ_of_lt hlt)
  refine ⟨q', L', hrun, of_chain hchain hlt ?_, hslot⟩
  rw [hback, h.back, hslot last hlt]

/-- Back moves to the address before. -/
theorem unPushBack_eq (h : QueueRep q L first (last + 1) items) (hle : first ≤ last) :
    ∃ q', q.unPushBack = some q' ∧ q'.backAddr = L.slot N last ∧
      q' = { q with backChunk := q'.backChunk, backPos := q'.backPos } := by
  obtain ⟨p, c, hback, hp, hc, hpos, -, hget, hmod⟩ := h.back_eq
  have hbase := (h.inRange (Nat.le_succ_of_le hle) (Nat.le_succ _)).1
  have hdiv := Nat.div_add_mod (last + 1 - L.base) N
  rw [← hmod] at hdiv
  generalize (last + 1 - L.base) / N = m at hget hdiv
  by_cases hzero : q.backPos = 0
  · -- the address before is at the end of the previous chunk
    obtain ⟨m, rfl⟩ : ∃ m', m = m' + 1 := by
      cases m with
      | zero => have := h.beginPos; simp only [Nat.mul_zero] at hdiv; omega
      | succ m => exact ⟨m, rfl⟩
    obtain ⟨p₀, hp₀⟩ : ∃ p₀, L.chunks[m]? = some p₀ :=
      ⟨_, List.getElem?_eq_getElem (by have := (List.getElem?_eq_some_iff.mp hget).1; omega)⟩
    have hprev : c.prev = some p₀ := by
      have := (h.linked hp₀ hget).2
      rwa [YQueue.prevOf, hc] at this
    have hslot : L.slot N last = some (p₀, N - 1) := by
      have : L.slot N (L.base + N * m + (N - 1)) = _ :=
        Layout.slot_mul_add (by have := h.pos; omega)
      rw [Nat.mul_succ] at hdiv
      rw [show L.base + N * m + (N - 1) = last by have := h.pos; omega, hp₀] at this
      exact this
    refine ⟨{ q with backPos := N - 1, backChunk := some p₀ }, ?_, hslot.symm, rfl⟩
    rw [YQueue.unPushBack, if_neg (not_not.mpr hzero), hback]
    simp [YQueue.deref, hc, hprev]
  · have hslot : L.slot N last = some (p, q.backPos - 1) := by
      have : L.slot N (L.base + N * m + (q.backPos - 1)) = _ := Layout.slot_mul_add (by omega)
      rw [show L.base + N * m + (q.backPos - 1) = last by omega, hget] at this
      exact this
    refine ⟨{ q with backPos := q.backPos - 1 }, if_pos hzero, ?_, rfl⟩
    rw [hslot, YQueue.backAddr, hback]
    rfl

/-- The first part of `UnPush()` runs, and moves back to the element before if there is one. -/
theorem unPushBack_run (h : QueueRep q L first last items) :
    ∃ q', q.unPushBack = some q' ∧
      q' = { q with backChunk := q'.backChunk, backPos := q'.backPos } ∧
      ∀ {i}, first ≤ i → last = i + 1 → q'.backAddr = L.slot N i := by
  by_cases hlt : first < last
  · obtain ⟨i, rfl⟩ : ∃ i, last = i + 1 := ⟨last - 1, by omega⟩
    obtain ⟨q', hrun, hback, hq'⟩ := h.unPushBack_eq (Nat.le_of_lt_succ hlt)
    refine ⟨q', hrun, hq', fun _ heq => ?_⟩
    rw [hback, Nat.succ.inj heq]
  · -- the only element: where back moves to does not matter
    obtain ⟨p, c, hback, -, hc, -⟩ := h.back_eq
    by_cases hzero : q.backPos = 0
    · refine ⟨{ q with backPos := N - 1, backChunk := c.prev }, ?_, rfl, fun _ _ => by omega⟩
      rw [YQueue.unPushBack, if_neg (not_not.mpr hzero), hback]
      simp [YQueue.deref, hc]
    · exact ⟨_, if_pos hzero, rfl, fun _ _ => by omega⟩

/-- **`UnPush()`** takes the back element back. The addresses of the others stay. -/
theorem unPush_spec (h : QueueRep q L first (last + 1) items) (hle : first ≤ last)
    (hlen : items.length ≤ last + 1) :
    ∃ q' L', q.unPush = some q' ∧ QueueRep q' L' first last items ∧
      ∀ i, first ≤ i → i ≤ last → L'.slot N i = L.slot N i := by
  obtain ⟨q₁, hrun₁, hback₁, hq₁⟩ := h.unPushBack_eq hle
  have hchain₁ : ChunkChain q₁ L first (last + 2) items := by
    rw [hq₁]
    exact { h.chain with }
  obtain ⟨q', L', hrun₂, hchain, hback, hslot, -⟩ :=
    hchain₁.unPushEnd_spec (hle.trans (Nat.le_succ _)) hlen
  refine ⟨q', L', by rw [YQueue.unPush, hrun₁]; exact hrun₂, of_chain hchain hle ?_,
    fun i hi hil => hslot i hi (Nat.le_succ_of_le hil)⟩
  rw [hback, hback₁, hslot last hle (Nat.le_succ _)]

theorem valueAt_eq {p : ChunkPtr} {k : ℕ} (hk : k < N) :
    q.valueAt (some p) k = q.load (p, k) := by
  simp [YQueue.valueAt, YQueue.deref, YQueue.load, hk]

/-- The value of the front element. -/
theorem front_eq (h : QueueRep q L first last items) {v : T} (hv : items[first]? = some v) :
    q.front = some v := by
  have hval := h.values le_rfl hv
  rw [← h.frontAddr_eq, YQueue.frontAddr] at hval
  obtain ⟨p, hp⟩ : ∃ p, q.beginChunk = some p :=
    ⟨_, h.beginChunk.trans (List.getElem?_eq_getElem h.length_pos)⟩
  rw [hp] at hval
  rw [YQueue.front, hp, valueAt_eq h.beginPos_lt]
  exact hval

/-- The value of the back element. -/
theorem back_value_eq (h : QueueRep q L first last items) {v : T} (hv : items[last]? = some v) :
    q.back = some v := by
  have hval := h.values h.le hv
  obtain ⟨p, c, hback, -, -, hpos, hslot, -, -⟩ := h.back_eq
  rw [hslot] at hval
  rw [YQueue.back, hback, valueAt_eq hpos]
  exact hval

/-- The queue of a new pipe: one element, with no value yet. -/
theorem new_spec (hN : 0 < N) {p p' : ChunkPtr} (hne : p' ≠ p) :
    ∃ (q : YQueue T N) (L : Layout), (YQueue.new p).push p' = some q ∧ QueueRep q L 0 0 [] := by
  by_cases hone : N = 1
  · subst hone
    let q₀ : YQueue T 1 := YQueue.new p
    let q₁ : YQueue T 1 := { q₀ with backChunk := some p, backPos := 0, endPos := 1 }
    have hmem : q₁.mem p = some Chunk.uninit := Function.update_self ..
    have hadd := ChunkChain.addChunk_eq (q := q₁) rfl hmem hne (Or.inr ⟨rfl, rfl, rfl⟩)
    have hpush : q₀.push p' = q₁.addChunk p' := rfl
    refine ⟨_, ⟨[p, p'], 0⟩, hpush.trans hadd, ?_⟩
    refine
      { nodup := by simp [hne.symm], length_pos := by simp, allocated := ?_, linked := ?_,
        spare := fun hp => (Option.some_ne_none _ hp.symm).elim, beginChunk := rfl, beginPos := rfl,
        beginPos_lt := Nat.one_pos, endChunk := rfl, endPos := rfl, endPos_lt := Nat.one_pos,
        back := by simp [Layout.slot, YQueue.backAddr, q₁], le := le_rfl,
        length_le := by simp, values := by simp }
    · intro x hx
      rcases List.mem_pair.mp hx with rfl | rfl
      · exact ⟨_, (Function.update_of_ne hne.symm _ _).trans (Function.update_self ..)⟩
      · exact ⟨_, Function.update_self ..⟩
    · intro m a b ha hb
      cases m with
      | zero =>
        obtain rfl : p = a := by simpa using ha
        obtain rfl : p' = b := by simpa using hb
        simp [YQueue.nextOf, YQueue.prevOf, Function.update_of_ne hne.symm, Chunk.setNext,
          Chunk.setPrev]
      | succ m => simp at hb
  · refine ⟨_, ⟨[p], 0⟩, if_pos (by simp [YQueue.new, YQueue.allocateChunk]; omega), ?_⟩
    exact
      { nodup := by simp, length_pos := by simp
        allocated := fun x hx => by
          obtain rfl : x = p := by simpa using hx
          exact ⟨_, Function.update_self ..⟩
        linked := fun {m a b} ha hb => by simp at hb
        spare := fun hp => (Option.some_ne_none _ hp.symm).elim
        beginChunk := rfl, beginPos := rfl, beginPos_lt := hN, endChunk := rfl
        endPos := by simp [YQueue.new, YQueue.allocateChunk]
        endPos_lt := by change 0 + 1 < N; omega
        back := by simp [YQueue.backAddr, YQueue.new, YQueue.allocateChunk, Layout.slot]
        le := le_rfl, length_le := by simp, values := by simp }

end QueueRep

end ServerKit
