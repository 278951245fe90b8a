import ServerKit.Base.ObjectPool
import ServerKit.Base.Verify.ListFifo

/-!
# The Buffers of a thread

Where each Buffer of a thread is while its `BufferList`s come and go. `Buffer::Reset` leaves `next_`
as it was, so a recycled Buffer can carry the link it had in an earlier list into a new one; the
destructor follows it when it is still the list's last Buffer. As long as no list is destroyed in
that condition, every Buffer is in the free list or in one list, once.
-/

namespace ServerKit

open Lib

/-! ## The free list -/

/-- Every Buffer made is in the free list, in the chain `c` or in use elsewhere, and in one of them
only. -/
structure Shares (ctx : Set BufferPtr) (s : ObjectList) (c : List BufferPtr) : Prop where
  nodup : s.freeList.Nodup
  free_chain : ∀ p ∈ s.freeList, p ∉ c
  free_ctx : ∀ p ∈ s.freeList, p ∉ ctx
  chain_ctx : ∀ p ∈ c, p ∉ ctx
  made_iff : ∀ p : BufferPtr, p.val < s.made ↔ p ∈ s.freeList ∨ p ∈ c ∨ p ∈ ctx

namespace Shares

variable {ctx : Set BufferPtr} {m : Memory ObjectList} {c : List BufferPtr}

/-- `new` finds a Buffer that is nowhere yet, and `push_back` puts it in the free list. -/
theorem newBuffer (hs : Shares ctx m.pool c) :
    Outcome (· = Fault.badAlloc)
      (fun r => Shares ctx (ObjectList.pushBack r.2 r.1).pool c ∧
        (∀ p, p ∈ c ∨ p ∈ ctx → r.2.heap p = m.heap p) ∧
        r.2.pool.freeList = m.pool.freeList)
      (ObjectList.newBuffer m) := by
  unfold ObjectList.newBuffer
  split
  · rename_i hlt
    have hnew : ∀ p : BufferPtr, p.val < m.pool.made → p ≠ ⟨m.pool.made, hlt⟩ := by
      rintro p hp rfl
      exact Nat.lt_irrefl _ hp
    refine ⟨{ nodup := ?_, free_chain := ?_, free_ctx := ?_, chain_ctx := hs.chain_ctx,
              made_iff := ?_ }, fun p hp => ?_, rfl⟩
    · refine List.nodup_append.mpr ⟨hs.nodup, by simp, fun x hx y hy he => ?_⟩
      obtain rfl : y = ⟨m.pool.made, hlt⟩ := by simpa using hy
      exact hnew x ((hs.made_iff x).mpr (Or.inl hx)) he
    · intro p hp hc
      rcases List.mem_append.mp hp with hp | hp
      · exact hs.free_chain p hp hc
      · exact hnew p ((hs.made_iff p).mpr (Or.inr (Or.inl hc))) (by simpa using hp)
    · intro p hp hc
      rcases List.mem_append.mp hp with hp | hp
      · exact hs.free_ctx p hp hc
      · exact hnew p ((hs.made_iff p).mpr (Or.inr (Or.inr hc))) (by simpa using hp)
    · intro p
      have hval : p = ⟨m.pool.made, hlt⟩ ↔ p.val = m.pool.made := by simp [Fin.ext_iff]
      have hold := hs.made_iff p
      simp only [ObjectList.pushBack, List.mem_append, List.mem_singleton, hval]
      rw [or_right_comm, ← hold]
      omega
    · exact Function.update_of_ne
        (hnew p ((hs.made_iff p).mpr (Or.inr hp))) _ _
  · exact rfl

theorem allocateLoop : ∀ (i : ℕ) {m : Memory ObjectList}, Shares ctx m.pool c →
    Outcome (· = Fault.badAlloc)
      (fun m' => Shares ctx m'.pool c ∧ (∀ p, p ∈ c ∨ p ∈ ctx → m'.heap p = m.heap p) ∧
        m'.pool.freeList.length = m.pool.freeList.length + i)
      (ObjectList.allocateLoop i m)
  | 0, _, hs => ⟨hs, fun _ _ => rfl, rfl⟩
  | i + 1, m, hs => by
    refine hs.newBuffer.bind fun r hr => ?_
    obtain ⟨hs₁, hframe₁, hfree₁⟩ := hr
    refine (allocateLoop i hs₁).mono fun m' h' => ?_
    obtain ⟨hs₂, hframe₂, hlen⟩ := h'
    refine ⟨hs₂, fun p hp => (hframe₂ p hp).trans (hframe₁ p hp), ?_⟩
    simp only [hlen, ObjectList.pushBack, hfree₁, List.length_append, List.length_cons,
      List.length_nil]
    omega

/-- The Buffer at the front of the free list goes to the chain. -/
theorem take {p : BufferPtr} {rest : List BufferPtr} (hs : Shares ctx m.pool c)
    (hfree : m.pool.freeList = p :: rest) :
    Shares ctx { m.pool with freeList := rest } (c ++ [p]) := by
  have hnd := hs.nodup
  rw [hfree, List.nodup_cons] at hnd
  have hmem : ∀ x ∈ rest, x ∈ m.pool.freeList := fun x hx => by rw [hfree]; simp [hx]
  have hp : p ∈ m.pool.freeList := by rw [hfree]; simp
  refine { nodup := hnd.2, free_chain := ?_, free_ctx := fun x hx => hs.free_ctx x (hmem x hx),
           chain_ctx := ?_, made_iff := ?_ }
  · intro x hx hc
    rcases List.mem_append.mp hc with hc | hc
    · exact hs.free_chain x (hmem x hx) hc
    · obtain rfl : x = p := by simpa using hc
      exact hnd.1 hx
  · intro x hx
    rcases List.mem_append.mp hx with hx | hx
    · exact hs.chain_ctx x hx
    · obtain rfl : x = p := by simpa using hx
      exact hs.free_ctx x hp
  · intro x
    rw [hs.made_iff x, hfree]
    simp only [List.mem_cons, List.mem_append, List.not_mem_nil, or_false]
    tauto

/-- After the test for an empty list there is a front. -/
theorem allocateIfEmpty (hs : Shares ctx m.pool c) :
    Outcome (· = Fault.badAlloc)
      (fun m' => Shares ctx m'.pool c ∧ (∀ p, p ∈ c ∨ p ∈ ctx → m'.heap p = m.heap p) ∧
        m'.pool.freeList ≠ []) (ObjectList.allocateIfEmpty m) := by
  unfold ObjectList.allocateIfEmpty
  split
  · refine (allocateLoop kAllocObjectNumber hs).mono fun m' h' => ⟨h'.1, h'.2.1, ?_⟩
    refine List.ne_nil_of_length_pos ?_
    rw [h'.2.2]
    simp [kAllocObjectNumber]
  · rename_i hne
    exact ⟨hs, fun _ _ => rfl, by simpa using hne⟩

theorem get (hs : Shares ctx m.pool c) :
    Outcome (· = Fault.badAlloc)
      (fun r => r.1 ∉ c ∧ (∀ p, p ∈ c ∨ p ∈ ctx → r.2.heap p = m.heap p) ∧
        Shares ctx r.2.pool (c ++ [r.1])) (ObjectList.get m) := by
  refine hs.allocateIfEmpty.bind fun m' h' => ?_
  obtain ⟨hs', hframe, hne⟩ := h'
  obtain ⟨p, rest, hfree⟩ := List.exists_cons_of_ne_nil hne
  simp only [hfree, Outcome.pure_iff]
  exact ⟨hs'.free_chain p (by rw [hfree]; simp), hframe, hs'.take hfree⟩

/-- The first Buffer of the chain goes to the end of the free list. -/
theorem giveBack {p : BufferPtr} (hs : Shares ctx m.pool (p :: c)) (hp : p ∉ c) :
    Shares ctx (ObjectList.free m p).pool c := by
  refine { nodup := ?_, free_chain := ?_, free_ctx := ?_,
           chain_ctx := fun x hx => hs.chain_ctx x (List.mem_cons_of_mem _ hx), made_iff := ?_ }
  · refine List.nodup_append.mpr ⟨hs.nodup, by simp, fun x hx y hy he => ?_⟩
    obtain rfl : y = p := by simpa using hy
    exact hs.free_chain x hx (by simp [he])
  · intro x hx hc
    rcases List.mem_append.mp hx with hx | hx
    · exact hs.free_chain x hx (List.mem_cons_of_mem _ hc)
    · obtain rfl : x = p := by simpa using hx
      exact hp hc
  · intro x hx
    rcases List.mem_append.mp hx with hx | hx
    · exact hs.free_ctx x hx
    · obtain rfl : x = p := by simpa using hx
      exact hs.chain_ctx x (by simp)
  · intro x
    have hold := hs.made_iff x
    simp only [List.mem_cons] at hold
    simp only [ObjectList.free, ObjectList.pushBack, List.mem_append, List.mem_singleton]
    tauto

end Shares

theorem objectPool_safe (ctx : Set BufferPtr) : PoolSafe objectPool (Shares ctx) ctx where
  disjoint hs hp := hs.chain_ctx _ hp
  getObject hs := hs.get
  freeObject := by
    intro m p c hs hp
    refine ⟨fun q hq => Function.update_of_ne ?_ _ _, hs.giveBack hp⟩
    rintro rfl
    rcases hq with hq | hq
    · exact hp hq
    · exact hs.chain_ctx _ (by simp) hq

end ServerKit
