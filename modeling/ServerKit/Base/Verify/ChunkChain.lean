import ServerKit.Base.YQueue
import Mathlib.Data.List.Nodup
import Mathlib.Tactic.Ring

/-!
# The chunks of a `YQueue`

Elements are numbered in the order they are pushed. A `Layout` says at which address each number is:
the linked chunks from the begin chunk to the end chunk, and the number of the first element of the
begin chunk. Numbers in range have different addresses, though an address serves many numbers over
the life of the queue. `ChunkChain` ties a `YQueue` to its layout, the number of its front element,
the number its next element will have, and the values written. It says nothing about the back
element, so it holds of an empty queue too.
-/

namespace ServerKit

variable {T : Type} {N : ℕ}

/-! ## Numbers and addresses -/

/-- The chunks of a queue in order, and the number of their first element. -/
structure Layout where
  chunks : List ChunkPtr
  base : ℕ

namespace Layout

variable {L : Layout} {i j : ℕ}

/-- The address of the element with number `i`. -/
def slot (L : Layout) (N i : ℕ) : Option ElemPtr :=
  (L.chunks[(i - L.base) / N]?).map (·, (i - L.base) % N)

/-- The numbers the chunks have room for. -/
def InRange (L : Layout) (N i : ℕ) : Prop := L.base ≤ i ∧ i < L.base + N * L.chunks.length

theorem InRange.index_lt (h : L.InRange N i) : (i - L.base) / N < L.chunks.length :=
  Nat.div_lt_of_lt_mul (by have := h.1; have := h.2; omega)

/-- The address of a number in range. -/
theorem slot_eq_some (hN : 0 < N) (h : L.InRange N i) :
    ∃ p k, L.slot N i = some (p, k) ∧ p ∈ L.chunks ∧ k < N ∧
      L.chunks[(i - L.base) / N]? = some p ∧ k = (i - L.base) % N := by
  have hget := List.getElem?_eq_getElem h.index_lt
  exact ⟨L.chunks.get ⟨_, h.index_lt⟩, (i - L.base) % N, by rw [slot, hget]; rfl,
    List.getElem_mem _, Nat.mod_lt _ hN, hget, rfl⟩

/-- **Numbers in range have different addresses.** -/
theorem slot_inj (hnd : L.chunks.Nodup) (hi : L.InRange N i) (hj : L.InRange N j)
    (h : L.slot N i = L.slot N j) : i = j := by
  rw [slot, slot, List.getElem?_eq_getElem hi.index_lt, List.getElem?_eq_getElem hj.index_lt,
    Option.map_some, Option.map_some] at h
  obtain ⟨hchunk, hpos⟩ := Prod.mk.inj (Option.some.inj h)
  have hdiv := (hnd.getElem_inj_iff).mp hchunk
  have := Nat.div_add_mod (i - L.base) N
  have := Nat.div_add_mod (j - L.base) N
  rw [hdiv, hpos] at *
  have := hi.1
  have := hj.1
  omega

/-- An address is one in a chunk of the layout. -/
theorem mem_of_slot {p : ChunkPtr} {k : ℕ} (h : L.slot N i = some (p, k)) : p ∈ L.chunks := by
  obtain ⟨x, hx, heq⟩ := Option.map_eq_some_iff.mp h
  obtain rfl : x = p := (Prod.mk.inj heq).1
  exact List.mem_of_getElem? hx

theorem slot_ne_none (hN : 0 < N) (h : L.InRange N i) : L.slot N i ≠ none := by
  obtain ⟨p, k, hs, -⟩ := slot_eq_some hN h
  rw [hs]
  exact Option.some_ne_none _

/-- A chunk added at the end moves nothing. -/
theorem slot_append {cs ds : List ChunkPtr} {b : ℕ} (h : (Layout.mk cs b).InRange N i) :
    (Layout.mk (cs ++ ds) b).slot N i = (Layout.mk cs b).slot N i := by
  rw [slot, slot, List.getElem?_append_left h.index_lt]

/-- A chunk dropped at the front moves nothing. -/
theorem slot_tail {p : ChunkPtr} {cs : List ChunkPtr} {b : ℕ} (hN : 0 < N) (h : b + N ≤ i) :
    (Layout.mk cs (b + N)).slot N i = (Layout.mk (p :: cs) b).slot N i := by
  have hsub : i - b = i - (b + N) + N := by omega
  rw [slot, slot]
  simp only [hsub, Nat.add_div_right _ hN, Nat.add_mod_right, List.getElem?_cons_succ]

/-- The first number of the `m`-th chunk, and those behind it in the chunk. -/
theorem slot_mul_add {m k : ℕ} (hk : k < N) :
    L.slot N (L.base + N * m + k) = (L.chunks[m]?).map (·, k) := by
  have hsub : L.base + N * m + k - L.base = k + N * m := by omega
  rw [slot, hsub, Nat.add_mul_div_left _ _ (by omega), Nat.div_eq_of_lt hk, Nat.zero_add,
    Nat.add_mul_mod_self_left, Nat.mod_eq_of_lt hk]

end Layout

/-! ## The queue -/

namespace YQueue

/-- The link to the next chunk. -/
def nextOf (q : YQueue T N) (p : ChunkPtr) : Option ChunkPtr := (q.mem p).bind Chunk.next

/-- The link to the previous chunk. -/
def prevOf (q : YQueue T N) (p : ChunkPtr) : Option ChunkPtr := (q.mem p).bind Chunk.prev

/-- The element at an address. -/
def load (q : YQueue T N) (a : ElemPtr) : Option T := (q.mem a.1).bind fun c => c.values a.2

end YQueue

/-- The queue `q` has the layout `L`; its elements have the numbers from `first` to just before
`stop`; and the elements from `first` on have been given the values of `items`. -/
structure ChunkChain (q : YQueue T N) (L : Layout) (first stop : ℕ) (items : List T) : Prop where
  nodup : L.chunks.Nodup
  length_pos : 0 < L.chunks.length
  allocated : ∀ p ∈ L.chunks, ∃ c, q.mem p = some c
  linked : ∀ {m a b}, L.chunks[m]? = some a → L.chunks[m + 1]? = some b →
    q.nextOf a = some b ∧ q.prevOf b = some a
  spare : ∀ {p}, q.spareChunk = some p → p ∉ L.chunks ∧ ∃ c, q.mem p = some c
  beginChunk : q.beginChunk = L.chunks[0]?
  beginPos : L.base + q.beginPos = first
  beginPos_lt : q.beginPos < N
  endChunk : q.endChunk = L.chunks[L.chunks.length - 1]?
  endPos : L.base + N * (L.chunks.length - 1) + q.endPos = stop
  endPos_lt : q.endPos < N
  le : first ≤ stop
  length_le : items.length ≤ stop
  values : ∀ {i v}, first ≤ i → items[i]? = some v → (L.slot N i).bind q.load = some v

/-- Every chunk that is allocated is one of the layout, or the spare one. -/
def YQueue.Owned (q : YQueue T N) (L : Layout) : Prop :=
  ∀ ⦃p⦄, q.mem p ≠ none → p ∈ L.chunks ∨ q.spareChunk = some p

namespace ChunkChain

variable {q : YQueue T N} {L : Layout} {first last stop : ℕ} {items : List T}

/-- The numbers from the front element to that of the next element are in range. -/
theorem inRange (h : ChunkChain q L first stop items) {i : ℕ} (hi : first ≤ i) (hle : i ≤ stop) :
    L.InRange N i := by
  obtain ⟨n, hn⟩ : ∃ n, L.chunks.length = n + 1 := ⟨_, (Nat.succ_pred_eq_of_pos h.length_pos).symm⟩
  have hb := h.beginPos
  have he := h.endPos
  have hlt := h.endPos_lt
  rw [hn, Nat.add_sub_cancel] at he
  refine ⟨by omega, ?_⟩
  rw [hn, Nat.mul_succ]
  omega

theorem frontAddr_eq (h : ChunkChain q L first stop items) : q.frontAddr = L.slot N first := by
  have := L.slot_mul_add (m := 0) h.beginPos_lt
  rw [Nat.mul_zero, Nat.add_zero, h.beginPos] at this
  rw [this, ← h.beginChunk]
  rfl

/-- The addresses of the elements are different. -/
theorem slot_inj (h : ChunkChain q L first stop items) {i j : ℕ} (hi : first ≤ i)
    (hil : i ≤ stop) (hj : first ≤ j) (hjl : j ≤ stop) (heq : L.slot N i = L.slot N j) : i = j :=
  Layout.slot_inj h.nodup (h.inRange hi hil) (h.inRange hj hjl) heq

theorem pos (h : ChunkChain q L first stop items) : 0 < N := by
  have := h.endPos_lt
  omega

/-- A value that has stayed at its address. -/
theorem values_congr (h : ChunkChain q L first stop items) {q' : YQueue T N} {L' : Layout} {i : ℕ}
    {v : T} (hi : first ≤ i) (hv : items[i]? = some v) (hslot : L'.slot N i = L.slot N i)
    (hload : ∀ x k, L.slot N i = some (x, k) → q'.load (x, k) = q.load (x, k)) :
    (L'.slot N i).bind q'.load = some v := by
  have hval := h.values hi hv
  rw [hslot]
  cases hs : L.slot N i with
  | none =>
    rw [hs] at hval
    cases hval
  | some a =>
    rw [hs, Option.bind_some] at hval
    rw [Option.bind_some, hload a.1 a.2 hs]
    exact hval

theorem lt_stop (h : ChunkChain q L first stop items) {i : ℕ} {v : T} (hv : items[i]? = some v) :
    i < stop :=
  (List.getElem?_eq_some_iff.mp hv).1.trans_le h.length_le

/-- Fewer values. -/
theorem take (h : ChunkChain q L first stop items) (n : ℕ) :
    ChunkChain q L first stop (items.take n) :=
  { h with
    length_le := (List.length_take_le' _ _).trans h.length_le
    values := fun {i v} hi hv => by
      rw [List.getElem?_take] at hv
      split at hv
      · exact h.values hi hv
      · cases hv }

/-! ## A chunk more at the end -/

/-- A new end chunk: the spare one or a new one, linked behind the old end chunk. -/
theorem addChunk_eq {p e c : ChunkPtr} {ce cc : Chunk T} (he : q.endChunk = some e)
    (hce : q.mem e = some ce) (hne : c ≠ e)
    (hc : (q.spareChunk = some c ∧ q.mem c = some cc) ∨
      (q.spareChunk = none ∧ c = p ∧ cc = Chunk.uninit)) :
    q.addChunk p = some { q with
      mem := Function.update (Function.update q.mem e (some (ce.setNext (some c)))) c
        (some (cc.setPrev (some e)))
      endChunk := some c, endPos := 0, spareChunk := none } := by
  rcases hc with ⟨hs, hcc⟩ | ⟨hs, rfl, rfl⟩
  · simp [YQueue.addChunk, YQueue.xchgSpare, YQueue.modify, YQueue.deref, hs, he, hce, hcc,
      Function.update_of_ne hne, Function.update_of_ne hne.symm, Chunk.setNext]
  · simp [YQueue.addChunk, YQueue.xchgSpare, YQueue.modify, YQueue.deref, YQueue.allocateChunk, hs,
      he, hce, Function.update_of_ne hne.symm, Chunk.setNext, Function.update_comm hne]

/-- A queue in which at most the `next` of the chunk `e` has been written. -/
theorem setNext_frame {q' : YQueue T N} {x e : ChunkPtr} {c : Chunk T} {o : Option ChunkPtr}
    (hc : q.mem e = some c) (hc' : q'.mem e = some (c.setNext o))
    (hother : x ≠ e → q'.mem x = q.mem x) :
    q'.prevOf x = q.prevOf x ∧ ∀ k, q'.load (x, k) = q.load (x, k) := by
  by_cases hx : x = e
  · subst hx
    simp only [YQueue.prevOf, YQueue.load, hc, hc']
    exact ⟨rfl, fun _ => rfl⟩
  · refine ⟨?_, fun k => ?_⟩
    · rw [YQueue.prevOf, YQueue.prevOf, hother hx]
    · simp only [YQueue.load, hother hx]

/-- A queue in which at most the `prev` of the chunk `e` has been written. -/
theorem setPrev_frame {q' : YQueue T N} {x e : ChunkPtr} {c : Chunk T} {o : Option ChunkPtr}
    (hc : q.mem e = some c) (hc' : q'.mem e = some (c.setPrev o))
    (hother : x ≠ e → q'.mem x = q.mem x) :
    q'.nextOf x = q.nextOf x ∧ ∀ k, q'.load (x, k) = q.load (x, k) := by
  by_cases hx : x = e
  · subst hx
    simp only [YQueue.nextOf, YQueue.load, hc, hc']
    exact ⟨rfl, fun _ => rfl⟩
  · refine ⟨?_, fun k => ?_⟩
    · rw [YQueue.nextOf, YQueue.nextOf, hother hx]
    · simp only [YQueue.load, hother hx]

/-- A chunk linked behind the old end chunk is the new end chunk. -/
theorem link {q' : YQueue T N} {e c : ChunkPtr} {ce cc : Chunk T} {cs : List ChunkPtr} {b : ℕ}
    (h : ChunkChain q ⟨cs ++ [e], b⟩ first stop items) (hc : c ∉ cs ++ [e])
    (hfull : q.endPos + 1 = N) (hce : q.mem e = some ce)
    (hother : ∀ x, x ≠ c → x ≠ e → q'.mem x = q.mem x)
    (hold : q'.mem e = some (ce.setNext (some c))) (hnew : q'.mem c = some (cc.setPrev (some e)))
    (hbegin : q'.beginChunk = q.beginChunk) (hbeginPos : q'.beginPos = q.beginPos)
    (hend : q'.endChunk = some c) (hendPos : q'.endPos = 0) (hspare : q'.spareChunk = none) :
    ChunkChain q' ⟨cs ++ [e] ++ [c], b⟩ first (stop + 1) items := by
  have hendPos' := h.endPos
  simp only [List.length_append, List.length_singleton, Nat.add_sub_cancel] at hendPos'
  have hne : e ≠ c := fun heq => hc (by simp [heq])
  have hcs : ∀ x ∈ cs, x ≠ c ∧ x ≠ e := by
    intro x hx
    refine ⟨fun heq => hc (by simp [← heq, hx]), fun heq => ?_⟩
    have hnd := h.nodup
    simp only [List.nodup_append, List.mem_singleton] at hnd
    exact hnd.2.2 x hx e rfl heq
  have hnextOf : ∀ x ∈ cs, q'.nextOf x = q.nextOf x := fun x hx => by
    rw [YQueue.nextOf, YQueue.nextOf, hother x (hcs x hx).1 (hcs x hx).2]
  have hprevOf : ∀ x, x ≠ c → q'.prevOf x = q.prevOf x := fun x hx =>
    (setNext_frame hce hold (hother x hx)).1
  have hload : ∀ x k, x ≠ c → q'.load (x, k) = q.load (x, k) := fun x k hx =>
    (setNext_frame hce hold (hother x hx)).2 k
  refine
    { nodup := ?_, length_pos := by simp, allocated := ?_, linked := ?_, spare := ?_,
      beginChunk := ?_, beginPos := by rw [hbeginPos]; exact h.beginPos,
      beginPos_lt := by rw [hbeginPos]; exact h.beginPos_lt, endChunk := by simp [hend],
      endPos := ?_, endPos_lt := by rw [hendPos]; exact h.pos,
      le := h.le.trans (Nat.le_succ _), length_le := h.length_le.trans (Nat.le_succ _),
      values := ?_ }
  · refine List.nodup_append.mpr ⟨h.nodup, by simp, fun x hx y hy heq => hc ?_⟩
    obtain rfl : y = c := by simpa using hy
    rwa [← heq]
  · intro x hx
    rcases List.mem_append.mp hx with hx | hx
    · rcases List.mem_append.mp hx with hx' | hx'
      · obtain ⟨cx, hcx⟩ := h.allocated x hx
        exact ⟨cx, (hother x (hcs x hx').1 (hcs x hx').2).trans hcx⟩
      · obtain rfl : x = e := by simpa using hx'
        exact ⟨_, hold⟩
    · obtain rfl : x = c := by simpa using hx
      exact ⟨_, hnew⟩
  · intro m x y hx hy
    simp only at hx hy
    have hm : m + 1 < cs.length + 2 := by
      have := (List.getElem?_eq_some_iff.mp hy).1
      simpa using this
    by_cases hlast : m = cs.length
    · subst hlast
      obtain rfl : e = x := by simpa [List.append_assoc] using hx
      obtain rfl : c = y := by simpa [List.append_assoc] using hy
      refine ⟨?_, ?_⟩
      · rw [YQueue.nextOf, hold]; rfl
      · rw [YQueue.prevOf, hnew]; rfl
    · rw [List.getElem?_append_left (by simp; omega)] at hx hy
      have hxcs : x ∈ cs := by
        rw [List.getElem?_append_left (by omega)] at hx
        exact List.mem_of_getElem? hx
      have hyc : y ≠ c := fun heq => hc (heq ▸ List.mem_of_getElem? hy)
      rw [hnextOf x hxcs, hprevOf y hyc]
      exact h.linked hx hy
  · intro x hx
    rw [hspare] at hx
    cases hx
  · exact hbegin.trans (h.beginChunk.trans (List.getElem?_append_left (by simp)).symm)
  · simp only [List.length_append, List.length_singleton, Nat.add_sub_cancel, hendPos,
      Nat.mul_succ]
    omega
  · intro i v hi hv
    exact h.values_congr hi hv (Layout.slot_append (h.inRange hi (h.lt_stop hv).le))
      fun x k hs => hload x k fun heq => hc (heq ▸ Layout.mem_of_slot hs)

/-- **`Push()`** adds an element and makes it the back element. The addresses of the others
stay. -/
theorem push_spec (h : ChunkChain q L first stop items) {p : ChunkPtr} (hp : q.mem p = none) :
    ∃ q' L', q.push p = some q' ∧ ChunkChain q' L' first (stop + 1) items ∧
      q'.backAddr = L'.slot N stop ∧ (∀ i, first ≤ i → i ≤ stop → L'.slot N i = L.slot N i) ∧
      (q.Owned L → q'.Owned L') := by
  obtain ⟨chunks, b⟩ := L
  obtain ⟨cs, e, rfl⟩ : ∃ cs e, chunks = cs ++ [e] :=
    ⟨_, _, (List.dropLast_append_getLast (List.ne_nil_of_length_pos h.length_pos)).symm⟩
  have hend := h.endPos
  have hendChunk := h.endChunk
  simp only [List.length_append, List.length_singleton, Nat.add_sub_cancel] at hend hendChunk
  have hendChunk : q.endChunk = some e := by simpa using hendChunk
  have hback : q.endChunk.map (·, q.endPos) = Layout.slot ⟨cs ++ [e], b⟩ N stop := by
    rw [← hend, Layout.slot_mul_add h.endPos_lt, hendChunk]
    simp
  by_cases hfull : q.endPos + 1 = N
  · obtain ⟨ce, hce⟩ := h.allocated e (by simp)
    obtain ⟨c, cc, hc, hcmem⟩ : ∃ c cc, ((q.spareChunk = some c ∧ q.mem c = some cc) ∨
        (q.spareChunk = none ∧ c = p ∧ cc = Chunk.uninit)) ∧ c ∉ cs ++ [e] := by
      cases hs : q.spareChunk with
      | some c =>
        obtain ⟨hmem, cc, hcc⟩ := h.spare hs
        exact ⟨c, cc, Or.inl ⟨rfl, hcc⟩, hmem⟩
      | none =>
        refine ⟨p, _, Or.inr ⟨rfl, rfl, rfl⟩, fun hmem => ?_⟩
        obtain ⟨c, hc⟩ := h.allocated p hmem
        rw [hp] at hc
        cases hc
    have hne : c ≠ e := fun heq => hcmem (by simp [heq])
    have hother : ∀ (v w : Option (Chunk T)) (x : ChunkPtr), x ≠ c → x ≠ e →
        Function.update (Function.update q.mem e v) c w x = q.mem x := fun v w x hxc hxe =>
      (Function.update_of_ne hxc _ _).trans (Function.update_of_ne hxe _ _)
    have hslot : ∀ i, first ≤ i → i ≤ stop →
        Layout.slot ⟨cs ++ [e] ++ [c], b⟩ N i = Layout.slot ⟨cs ++ [e], b⟩ N i :=
      fun i hi hle => Layout.slot_append (h.inRange hi hle)
    refine ⟨_, ⟨cs ++ [e] ++ [c], b⟩, (if_neg (not_not.mpr hfull)).trans
      (addChunk_eq hendChunk hce hne hc), ?_, ?_, hslot, ?_⟩
    · refine h.link hcmem hfull hce (hother _ _) ?_ (Function.update_self ..) rfl rfl rfl rfl rfl
      exact (Function.update_of_ne hne.symm _ _).trans (Function.update_self ..)
    · exact hback.trans (hslot stop h.le le_rfl).symm
    · -- a spare chunk is used up
      intro howned x hx
      by_cases hxc : x = c
      · exact Or.inl (by simp [hxc])
      · by_cases hxe : x = e
        · exact Or.inl (by simp [hxe])
        · have hx' : q.mem x ≠ none := fun h₀ => hx ((hother _ _ x hxc hxe).trans h₀)
          rcases howned hx' with hmem | hspare
          · exact Or.inl (List.mem_append_left _ hmem)
          · rcases hc with ⟨hs, -⟩ | ⟨hs, -⟩
            · exact absurd (Option.some.inj (hspare.symm.trans hs)) hxc
            · rw [hs] at hspare
              cases hspare
  · refine ⟨_, ⟨cs ++ [e], b⟩, if_pos hfull, ?_, hback, fun _ _ _ => rfl, fun howned => howned⟩
    exact
      { h with
        endPos := by
          simp only [List.length_append, List.length_singleton, Nat.add_sub_cancel]
          omega
        endPos_lt := by have := h.endPos_lt; show q.endPos + 1 < N; omega
        le := h.le.trans (Nat.le_succ _)
        length_le := h.length_le.trans (Nat.le_succ _) }

/-! ## A chunk less at the front -/

/-- The begin chunk becomes the spare one, and the spare one is freed. -/
theorem dropChunk_eq {p p' : ChunkPtr} {c c' : Chunk T} (hp : q.beginChunk = some p)
    (hc : q.mem p = some c) (hnext : c.next = some p') (hc' : q.mem p' = some c')
    (hspare : ∀ s, q.spareChunk = some s → s ≠ p' ∧ ∃ cs, q.mem s = some cs) :
    ∃ q', q.dropChunk = some q' ∧ q'.mem p' = some (c'.setPrev none) ∧
      (∀ x, x ≠ p' → q.spareChunk ≠ some x → q'.mem x = q.mem x) ∧
      (∀ x, q.spareChunk = some x → q'.mem x = none) ∧
      q' = { q with
        mem := q'.mem, beginChunk := some p', beginPos := 0, spareChunk := some p } := by
  cases hs : q.spareChunk with
  | none =>
    refine ⟨{ q with mem := Function.update q.mem p' (some (c'.setPrev none)),
                     beginChunk := some p', beginPos := 0, spareChunk := some p },
      ?_, ?_, ?_, nofun, rfl⟩
    · simp [YQueue.dropChunk, YQueue.deref, YQueue.modify, YQueue.xchgSpare, YQueue.freeChunk,
        hp, hc, hnext, hc', hs]
    · exact Function.update_self ..
    · exact fun x hx _ => Function.update_of_ne hx _ _
  | some s =>
    obtain ⟨hne, cs, hcs⟩ := hspare s hs
    refine ⟨{ q with
        mem := Function.update (Function.update q.mem p' (some (c'.setPrev none))) s none
        beginChunk := some p'
        beginPos := 0
        spareChunk := some p },
      ?_, ?_, ?_, ?_, rfl⟩
    · simp [YQueue.dropChunk, YQueue.deref, YQueue.modify, YQueue.xchgSpare, YQueue.freeChunk,
        hp, hc, hnext, hc', hs, Function.update_of_ne hne, hcs]
    · exact (Function.update_of_ne hne.symm _ _).trans (Function.update_self ..)
    · intro x hx hxs
      refine (Function.update_of_ne (fun heq => hxs (by rw [heq])) _ _).trans
        (Function.update_of_ne hx _ _)
    · intro x hx
      obtain rfl : s = x := Option.some.inj hx
      exact Function.update_self ..

/-- Without its first chunk, which is the spare one now, the second chunk is the begin chunk. -/
theorem drop {q' : YQueue T N} {p p' : ChunkPtr} {c' : Chunk T} {rest : List ChunkPtr} {b : ℕ}
    (h : ChunkChain q ⟨p :: p' :: rest, b⟩ first stop items) (hlt : first < stop)
    (hfull : q.beginPos + 1 = N) (hc' : q.mem p' = some c')
    (hother : ∀ x ∈ p :: p' :: rest, x ≠ p' → q'.mem x = q.mem x)
    (hnew : q'.mem p' = some (c'.setPrev none)) (hbegin : q'.beginChunk = some p')
    (hbeginPos : q'.beginPos = 0) (hend : q'.endChunk = q.endChunk)
    (hendPos : q'.endPos = q.endPos) (hspare : q'.spareChunk = some p) :
    ChunkChain q' ⟨p' :: rest, b + N⟩ (first + 1) stop items := by
  have hbase := h.beginPos
  have hsize := h.endPos
  have hnd := List.nodup_cons.mp h.nodup
  have hnd' := List.nodup_cons.mp hnd.2
  have hframe : ∀ x ∈ p :: p' :: rest, q'.nextOf x = q.nextOf x ∧
      ∀ k, q'.load (x, k) = q.load (x, k) := fun x hx => setPrev_frame hc' hnew (hother x hx)
  refine
    { nodup := hnd.2, length_pos := by simp, allocated := ?_, linked := ?_, spare := ?_,
      beginChunk := hbegin, beginPos := ?_, beginPos_lt := by rw [hbeginPos]; exact h.pos,
      endChunk := hend.trans h.endChunk, endPos := ?_,
      endPos_lt := by rw [hendPos]; exact h.endPos_lt, le := hlt, length_le := h.length_le,
      values := ?_ }
  · intro x hx
    by_cases hxp : x = p'
    · exact ⟨_, by rw [hxp]; exact hnew⟩
    · obtain ⟨cx, hcx⟩ := h.allocated x (List.mem_cons_of_mem _ hx)
      exact ⟨cx, (hother x (List.mem_cons_of_mem _ hx) hxp).trans hcx⟩
  · intro m x y hx hy
    have hlink := h.linked (m := m + 1) hx hy
    have hyr : y ∈ rest := List.mem_of_getElem? hy
    refine ⟨(hframe x (List.mem_cons_of_mem _ (List.mem_of_getElem? hx))).1.trans hlink.1, ?_⟩
    rw [YQueue.prevOf, hother y (by simp [hyr]) fun heq => hnd'.1 (heq ▸ hyr)]
    exact hlink.2
  · intro x hx
    rw [hspare] at hx
    obtain rfl : p = x := Option.some.inj hx
    obtain ⟨c, hc⟩ := h.allocated p (by simp)
    exact ⟨hnd.1, c, (hother p (by simp) fun heq => hnd.1 (by simp [heq])).trans hc⟩
  · change b + N + q'.beginPos = first + 1
    change b + q.beginPos = first at hbase
    omega
  · rw [hendPos]
    simp only [List.length_cons, Nat.add_sub_cancel, Nat.mul_succ] at hsize ⊢
    omega
  · intro i v hi hv
    refine h.values_congr (by omega) hv (Layout.slot_tail h.pos ?_) fun x k hs =>
      (hframe x (Layout.mem_of_slot hs)).2 k
    change b + q.beginPos = first at hbase
    omega

/-- **`Pop()`** drops the front element. The addresses of the others stay. -/
theorem pop_spec (h : ChunkChain q L first stop items) (hlt : first < stop) :
    ∃ q' L', q.pop = some q' ∧ ChunkChain q' L' (first + 1) stop items ∧
      q'.backAddr = q.backAddr ∧ (∀ i, first + 1 ≤ i → L'.slot N i = L.slot N i) ∧
      (q.Owned L → q'.Owned L') := by
  by_cases hfull : q.beginPos + 1 = N
  · obtain ⟨chunks, b⟩ := L
    have hbegin := h.beginPos
    have hend := h.endPos
    have hendLt := h.endPos_lt
    simp only at hbegin hend
    -- the next element to be pushed is in a later chunk
    obtain ⟨p, p', rest, rfl⟩ : ∃ p p' rest, chunks = p :: p' :: rest := by
      match chunks, h.length_pos with
      | [p], _ => simp only [List.length_singleton, Nat.sub_self, Nat.mul_zero] at hend; omega
      | p :: p' :: rest, _ => exact ⟨p, p', rest, rfl⟩
    obtain ⟨c, hc⟩ := h.allocated p (by simp)
    obtain ⟨c', hc'⟩ := h.allocated p' (by simp)
    have hnext : c.next = some p' := by
      have := (h.linked (m := 0) (a := p) (b := p') rfl rfl).1
      rwa [YQueue.nextOf, hc] at this
    obtain ⟨q', hrun, hnew, hother, hfreed, hq'⟩ := dropChunk_eq
      (q := ({ q with beginPos := q.beginPos + 1 } : YQueue T N)) h.beginChunk hc hnext hc'
      fun s hs => by
        obtain ⟨hmem, cs, hcs⟩ := h.spare hs
        exact ⟨fun heq => hmem (by simp [heq]), cs, hcs⟩
    have hkeep : ∀ x ∈ p :: p' :: rest, x ≠ p' → q'.mem x = q.mem x := fun x hx hxp =>
      hother x hxp fun hs => (h.spare hs).1 hx
    refine ⟨q', ⟨p' :: rest, b + N⟩, (if_pos hfull).trans hrun,
      h.drop hlt hfull hc' hkeep hnew (by rw [hq']) (by rw [hq']) (by rw [hq']) (by rw [hq'])
        (by rw [hq']), by rw [hq']; rfl, fun i hi => Layout.slot_tail h.pos (by omega), ?_⟩
    -- the chunk that is read out is kept, the spare one is not
    intro howned x hx
    by_cases hxs : q.spareChunk = some x
    · exact absurd (hfreed x hxs) hx
    · by_cases hxp : x = p'
      · exact Or.inl (by simp [hxp])
      · rw [hother x hxp hxs] at hx
        rcases howned hx with hmem | hspare
        · rcases List.mem_cons.mp hmem with rfl | hmem
          · exact Or.inr (by rw [hq'])
          · exact Or.inl hmem
        · exact absurd hspare hxs
  · refine ⟨_, L, if_neg hfull, ?_, rfl, fun _ _ => rfl, fun howned => howned⟩
    exact
      { h with
        beginPos := by have := h.beginPos; show _ + (q.beginPos + 1) = _; omega
        beginPos_lt := by have := h.beginPos_lt; show q.beginPos + 1 < N; omega
        le := hlt
        values := fun hi hv => h.values (by omega) hv }

/-! ## A chunk less at the end -/

/-- The obsolete end chunk `e` goes, and the one before it is the end chunk. -/
theorem unPushEnd_eq {e e' : ChunkPtr} {c c' : Chunk T} (hzero : q.endPos = 0)
    (he : q.endChunk = some e) (hc : q.mem e = some c) (hprev : c.prev = some e')
    (hc' : q.mem e' = some c') (hnext : c'.next = some e) (hne : e' ≠ e) :
    q.unPushEnd = some { q with
      mem := Function.update (Function.update q.mem e none) e' (some (c'.setNext none))
      endPos := N - 1, endChunk := some e' } := by
  simp [YQueue.unPushEnd, YQueue.deref, YQueue.modify, YQueue.freeChunk, hzero, he, hc, hprev, hc',
    hnext, Function.update_of_ne hne]

/-- Without an obsolete end chunk, the chunk before it is the end chunk. -/
theorem unlink {q' : YQueue T N} {e e' : ChunkPtr} {c' : Chunk T} {cs : List ChunkPtr} {b : ℕ}
    (h : ChunkChain q ⟨cs ++ [e'] ++ [e], b⟩ first (last + 1) items) (hle : first ≤ last)
    (hlen : items.length ≤ last) (hzero : q.endPos = 0) (hc' : q.mem e' = some c')
    (hother : ∀ x, x ≠ e' → x ≠ e → q'.mem x = q.mem x)
    (hnew : q'.mem e' = some (c'.setNext none)) (hbegin : q'.beginChunk = q.beginChunk)
    (hbeginPos : q'.beginPos = q.beginPos)
    (hend : q'.endChunk = some e') (hendPos : q'.endPos = N - 1)
    (hspare : q'.spareChunk = q.spareChunk) : ChunkChain q' ⟨cs ++ [e'], b⟩ first last items := by
  have hpos := h.pos
  have hnd := List.nodup_append.mp h.nodup
  have hnd' := List.nodup_append.mp hnd.1
  have hsize : b + N * (cs.length + 1) = last + 1 := by
    have := h.endPos
    simpa [hzero] using this
  have hrange : ∀ i, first ≤ i → i ≤ last → Layout.InRange ⟨cs ++ [e'], b⟩ N i := by
    intro i hi hil
    refine ⟨(h.inRange hi (by omega)).1, ?_⟩
    simp only [List.length_append, List.length_singleton]
    omega
  have hslot : ∀ i, first ≤ i → i ≤ last →
      Layout.slot ⟨cs ++ [e'] ++ [e], b⟩ N i = Layout.slot ⟨cs ++ [e'], b⟩ N i :=
    fun i hi hil => Layout.slot_append (hrange i hi hil)
  have hne : ∀ x ∈ cs ++ [e'], x ≠ e := fun x hx => hnd.2.2 x hx e (by simp)
  have hne' : ∀ x ∈ cs, x ≠ e' := fun x hx => hnd'.2.2 x hx e' (by simp)
  have hnextOf : ∀ x ∈ cs, q'.nextOf x = q.nextOf x := fun x hx => by
    rw [YQueue.nextOf, YQueue.nextOf, hother x (hne' x hx) (hne x (by simp [hx]))]
  have hframe : ∀ x ∈ cs ++ [e'], q'.prevOf x = q.prevOf x ∧
      ∀ k, q'.load (x, k) = q.load (x, k) := fun x hx =>
    setNext_frame hc' hnew fun hxe => hother x hxe (hne x hx)
  have halloc : ∀ x, x ≠ e → (∃ cx, q.mem x = some cx) → ∃ cx, q'.mem x = some cx := by
    rintro x hx ⟨cx, hcx⟩
    by_cases hxe : x = e'
    · exact ⟨_, by rw [hxe]; exact hnew⟩
    · exact ⟨cx, (hother x hxe hx).trans hcx⟩
  refine
    { nodup := hnd.1, length_pos := by simp, allocated := ?_, linked := ?_, spare := ?_,
      beginChunk := ?_, beginPos := by rw [hbeginPos]; exact h.beginPos,
      beginPos_lt := by rw [hbeginPos]; exact h.beginPos_lt, endChunk := by simp [hend],
      endPos := ?_, endPos_lt := by omega, le := hle, length_le := hlen,
      values := ?_ }
  · exact fun x hx => halloc x (hne x hx) (h.allocated x (List.mem_append_left _ hx))
  · intro m x y hx hy
    have hm := (List.getElem?_eq_some_iff.mp hy).1
    simp only [List.length_append, List.length_singleton] at hm
    have hxcs : x ∈ cs := by
      rw [List.getElem?_append_left (by omega)] at hx
      exact List.mem_of_getElem? hx
    rw [hnextOf x hxcs, (hframe y (List.mem_of_getElem? hy)).1]
    refine h.linked (m := m) ?_ ?_
    · exact (List.getElem?_append_left (by simp; omega)).trans hx
    · exact (List.getElem?_append_left (by simp; omega)).trans hy
  · intro x hx
    rw [hspare] at hx
    obtain ⟨hmem, hcx⟩ := h.spare hx
    exact ⟨fun hm => hmem (List.mem_append_left _ hm),
      halloc x (fun heq => hmem (by simp [heq])) hcx⟩
  · exact hbegin.trans (h.beginChunk.trans (List.getElem?_append_left (by simp)))
  · simp only [List.length_append, List.length_singleton, Nat.add_sub_cancel, hendPos]
    rw [Nat.mul_succ] at hsize
    omega
  · intro i v hi hv
    have hil : i < items.length := (List.getElem?_eq_some_iff.mp hv).1
    have hsame := hslot i hi (by omega)
    refine h.values_congr hi hv hsame.symm fun x k hs => (hframe x ?_).2 k
    rw [hsame] at hs
    exact Layout.mem_of_slot hs

/-- **The second part of `UnPush()`** takes the last element back. The addresses of the others
stay. -/
theorem unPushEnd_spec (h : ChunkChain q L first (last + 1) items) (hle : first ≤ last)
    (hlen : items.length ≤ last) :
    ∃ q' L', q.unPushEnd = some q' ∧ ChunkChain q' L' first last items ∧
      q'.backAddr = q.backAddr ∧ (∀ i, first ≤ i → i ≤ last → L'.slot N i = L.slot N i) ∧
      (q.Owned L → q'.Owned L') := by
  by_cases hzero : q.endPos = 0
  · obtain ⟨chunks, b⟩ := L
    have hend := h.endPos
    have hbase := h.beginPos
    simp only [hzero] at hend hbase
    -- the last element is in the chunk before the end chunk
    obtain ⟨cs, e', e, rfl⟩ : ∃ cs e' e, chunks = cs ++ [e'] ++ [e] := by
      rcases List.eq_nil_or_concat chunks with rfl | ⟨init, e, rfl⟩
      · exact absurd h.length_pos (by simp)
      · rcases List.eq_nil_or_concat init with rfl | ⟨cs, e', rfl⟩
        · simp at hend; omega
        · exact ⟨cs, e', e, by simp⟩
    have hnd := List.nodup_append.mp h.nodup
    have hne : e' ≠ e := hnd.2.2 e' (by simp) e (by simp)
    obtain ⟨c, hc⟩ := h.allocated e (by simp)
    obtain ⟨c', hc'⟩ := h.allocated e' (by simp)
    have hendChunk : q.endChunk = some e := by
      have := h.endChunk
      simpa using this
    obtain ⟨hnextOf, hprevOf⟩ := h.linked (m := cs.length) (a := e') (b := e)
      (by simp) (by simp)
    rw [YQueue.nextOf, hc'] at hnextOf
    rw [YQueue.prevOf, hc] at hprevOf
    have hother : ∀ (w : Option (Chunk T)) (x : ChunkPtr), x ≠ e' → x ≠ e →
        Function.update (Function.update q.mem e none) e' w x = q.mem x := fun w x hxe' hxe =>
      (Function.update_of_ne hxe' _ _).trans (Function.update_of_ne hxe _ _)
    have hsize : b + N * (cs.length + 1) = last + 1 := by simpa using hend
    refine ⟨_, ⟨cs ++ [e'], b⟩, unPushEnd_eq hzero hendChunk hc hprevOf hc' hnextOf hne,
      ?_, rfl, ?_, ?_⟩
    · exact h.unlink hle hlen hzero hc' (hother _) (Function.update_self ..) rfl rfl rfl rfl rfl
    · intro i hi hil
      refine (Layout.slot_append ⟨by change b ≤ i; omega, ?_⟩).symm
      simp only [List.length_append, List.length_singleton]
      omega
    · intro howned x hx
      by_cases hxe' : x = e'
      · exact Or.inl (by simp [hxe'])
      · by_cases hxe : x = e
        · refine absurd ?_ hx
          rw [hxe]
          exact (Function.update_of_ne hne.symm _ _).trans (Function.update_self ..)
        · have hx' : q.mem x ≠ none := fun h₀ => hx ((hother _ x hxe' hxe).trans h₀)
          refine (howned hx').imp_left fun hmem => ?_
          rcases List.mem_append.mp hmem with hmem | hmem
          · exact hmem
          · exact absurd (List.mem_singleton.mp hmem) hxe
  · refine ⟨_, L, if_pos hzero, ?_, rfl, fun _ _ _ => rfl, fun howned => howned⟩
    exact
      { h with
        endPos := by have := h.endPos; show _ + (q.endPos - 1) = _; omega
        endPos_lt := by have := h.endPos_lt; show q.endPos - 1 < N; omega
        le := hle
        length_le := hlen }

end ChunkChain

end ServerKit
