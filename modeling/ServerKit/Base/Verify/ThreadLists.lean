import ServerKit.Base.Verify.PoolPartition
import ServerKit.Lib.Walk

/-!
# Lists coming and going in a thread

Runs of a thread that constructs, writes, reads and destroys any number of `BufferList`s. While no
list is destroyed whose last Buffer carries a link from an earlier list (`DestroyOk`), each Buffer
is in the free list or in one live list, once (`Thread.Partition`); the first destruction that does
not meet the condition breaks the partition or never returns.
-/

namespace ServerKit

open Lib

/-! ## The destructor -/

/-- The links of a heap. -/
def nextOf (h : Heap) (p : BufferPtr) : Option BufferPtr := (h p).next

theorem free_nextOf (m : Memory ObjectList) (p q : BufferPtr) :
    nextOf (ObjectList.free m p).heap q = nextOf m.heap q := by
  simp only [nextOf, ObjectList.free, ObjectList.pushBack]
  by_cases hq : q = p
  · subst hq; simp
  · rw [Function.update_of_ne hq]

/-- What a destructor that has gone along `w` leaves: `w` at the end of the free list, and every
link as it was. -/
structure Freed (m : Memory ObjectList) (w : List BufferPtr) (m' : Memory ObjectList) : Prop where
  freeList : m'.pool.freeList = m.pool.freeList ++ w
  made : m'.pool.made = m.pool.made
  links : ∀ p, nextOf m'.heap p = nextOf m.heap p
  other : ∀ p, p ∉ w → m'.heap p = m.heap p

/-- The destructor returns when its walk ends within the iterations it may make. -/
theorem destroyLoop_of_walk {start : Option BufferPtr} {w : List BufferPtr}
    {m : Memory ObjectList} (hw : Walk (nextOf m.heap) start w) :
    ∀ fuel, w.length ≤ fuel →
      ∃ m', BufferList.destroyLoop objectPool fuel m start = .ok m' ∧ Freed m w m' := by
  generalize hnext : nextOf m.heap = next at hw
  induction hw generalizing m with
  | nil =>
    intro fuel _
    exact ⟨m, by simp [BufferList.destroyLoop], by simp, rfl, fun _ => rfl, fun _ _ => rfl⟩
  | @cons p w hw ih =>
    intro fuel hlen
    obtain ⟨fuel, rfl⟩ : ∃ k, fuel = k + 1 := ⟨fuel - 1, by simp at hlen; omega⟩
    obtain ⟨m', hrun, hfreed⟩ := ih (m := ObjectList.free m p)
      (by rw [← hnext]; funext q; exact free_nextOf m p q) fuel (by simpa using hlen)
    refine ⟨m', ?_, ?_⟩
    · rw [BufferList.destroyLoop]
      have : (m.heap p).next = next p := by rw [← hnext]; rfl
      rw [this]
      exact hrun
    · refine ⟨by rw [hfreed.freeList]; simp [ObjectList.free, ObjectList.pushBack], hfreed.made,
        fun q => (hfreed.links q).trans (free_nextOf m p q), fun q hq => ?_⟩
      rw [List.mem_cons, not_or] at hq
      rw [hfreed.other q hq.2]
      exact Function.update_of_ne hq.1 _ _

/-- A destructor that returns has gone along a walk. -/
theorem walk_of_destroyLoop : ∀ {fuel : ℕ} {start : Option BufferPtr} {m m' : Memory ObjectList},
    BufferList.destroyLoop objectPool fuel m start = .ok m' →
      ∃ w, Walk (nextOf m.heap) start w ∧ w.length ≤ fuel
  | _, none, _, _, _ => ⟨[], .nil, Nat.zero_le _⟩
  | 0, some p, m, m', h => by cases h
  | fuel + 1, some p, m, m', h => by
    have h : BufferList.destroyLoop objectPool fuel _ _ = _ := h
    obtain ⟨w, hw, hlen⟩ := walk_of_destroyLoop h
    exact ⟨p :: w, .cons (hw.congr fun q => (free_nextOf m p q).symm), by simpa using hlen⟩

/-- Only the links matter for which Buffers a list has. -/
theorem InList.congr {h h' : Heap} {l : BufferList} {p : BufferPtr} (hin : InList h l p)
    (hag : ∀ x, nextOf h' x = nextOf h x) : InList h' l p := by
  induction hin with
  | head hp => exact .head hp
  | @next x _ _ hlast hnext ih => exact .next ih hlast ((hag x).trans hnext)

/-! ## The partition of a thread's Buffers -/

/-- Each Buffer made is in the free list exactly once, or in exactly one live list, and the free
list holds nothing else. -/
def Thread.Partition (t : Thread) : Prop :=
  (∀ p ∈ t.mem.pool.freeList, p.val < t.mem.pool.made) ∧
  ∀ p : BufferPtr, p.val < t.mem.pool.made →
    (t.mem.pool.freeList.count p = 1 ∧
      ∀ i l, t.lists i = some l → ¬ InList t.mem.heap l p) ∨
    (t.mem.pool.freeList.count p = 0 ∧
      ∃! i, ∃ l, t.lists i = some l ∧ InList t.mem.heap l p)

/-- When an operation destroys a list, the list's last Buffer carries no link. -/
def DestroyOk (t : Thread) (op : ThreadOp) : Prop :=
  ∀ i l p, op = .destroy i → t.lists i = some l → l.write = some p → (t.mem.heap p).next = none

/-- The bytes that `Read(to, n)` on the list named `i` would deliver. -/
def Thread.peek (t : Thread) (i n : ℕ) : Option (List UInt8) :=
  match t.lists i with
  | none => none
  | some l =>
    match BufferList.readBytes objectPool t.mem l n with
    | .ok ((_, bytes), _, _) => some bytes
    | .error _ => none

/-- The Buffers in use outside the list named `i`. -/
def elsewhere (chain : ℕ → List BufferPtr) (i : ℕ) : Set BufferPtr :=
  { p | ∃ j, j ≠ i ∧ p ∈ chain j }

/-- The invariant of a thread: each live list represents a queue in its own chain, and the free
list and the chains share out the Buffers. -/
structure Shared (t : Thread) (chain : ℕ → List BufferPtr) : Prop where
  live : ∀ i l, t.lists i = some l → ∃ q, ListRep t.mem.heap l (chain i) q
  dead : ∀ i, t.lists i = none → chain i = []
  shares : ∀ i, Shares (elsewhere chain i) t.mem.pool (chain i)

namespace Shared

variable {t : Thread} {chain : ℕ → List BufferPtr}

theorem chain_unique (hs : Shared t chain) {i j : ℕ} {p : BufferPtr} (hi : p ∈ chain i)
    (hj : p ∈ chain j) : i = j := by
  by_contra hij
  exact (hs.shares i).chain_ctx p hi ⟨j, fun he => hij he.symm, hj⟩

theorem nodup (hs : Shared t chain) (i : ℕ) : (chain i).Nodup := by
  cases hi : t.lists i with
  | none => rw [hs.dead i hi]; exact List.nodup_nil
  | some l =>
    obtain ⟨q, hr⟩ := hs.live i l hi
    exact hr.nodup

/-- A Buffer of some chain is in the live list of that name. -/
theorem live_of_mem (hs : Shared t chain) {i : ℕ} {p : BufferPtr} (hp : p ∈ chain i) :
    ∃ l, t.lists i = some l ∧ InList t.mem.heap l p := by
  cases hi : t.lists i with
  | none => rw [hs.dead i hi] at hp; cases hp
  | some l =>
    obtain ⟨q, hr⟩ := hs.live i l hi
    exact ⟨l, rfl, hr.inList_of_mem hp⟩

theorem mem_of_live (hs : Shared t chain) {i : ℕ} {l : BufferList} {p : BufferPtr}
    (hi : t.lists i = some l) (hp : InList t.mem.heap l p) : p ∈ chain i := by
  obtain ⟨q, hr⟩ := hs.live i l hi
  exact hr.mem_of_inList hp

theorem partition (hs : Shared t chain) : t.Partition := by
  refine ⟨fun p hp => ((hs.shares 0).made_iff p).mpr (Or.inl hp), fun p hp => ?_⟩
  by_cases hfree : p ∈ t.mem.pool.freeList
  · left
    refine ⟨List.count_eq_one_of_mem (hs.shares 0).nodup hfree, fun i l hi hin => ?_⟩
    exact (hs.shares i).free_chain p hfree (hs.mem_of_live hi hin)
  · right
    refine ⟨List.count_eq_zero_of_not_mem hfree, ?_⟩
    obtain ⟨i, hi⟩ : ∃ i, p ∈ chain i := by
      rcases ((hs.shares 0).made_iff p).mp hp with h | h | ⟨j, _, h⟩
      · exact (hfree h).elim
      · exact ⟨0, h⟩
      · exact ⟨j, h⟩
    refine ⟨i, hs.live_of_mem hi, ?_⟩
    rintro j ⟨l, hj, hin⟩
    exact hs.chain_unique (hs.mem_of_live hj hin) hi

/-- The unread bytes of a live list are what `Read` delivers. -/
theorem peek_eq (hs : Shared t chain) {i : ℕ} {l : BufferList} {q : List UInt8}
    (hi : t.lists i = some l) (hr : ListRep t.mem.heap l (chain i) q) (n : ℕ) :
    t.peek i n = some (q.take n) := by
  obtain ⟨⟨⟨k, bytes⟩, m, l'⟩, hrun, hret, _⟩ :=
    (readBytes_spec (objectPool_safe _) hr (hs.shares i) n).exists_ok
  obtain ⟨-, rfl⟩ := Prod.mk.inj hret
  simp [Thread.peek, hi, hrun]

end Shared

/-! ## What one operation does -/

section Update

variable {chain : ℕ → List BufferPtr} {i : ℕ} {c : List BufferPtr} {s : ObjectList}

theorem elsewhere_update : elsewhere (Function.update chain i c) i = elsewhere chain i := by
  ext p
  constructor
  · rintro ⟨j, hj, hp⟩
    rw [Function.update_of_ne hj] at hp
    exact ⟨j, hj, hp⟩
  · rintro ⟨j, hj, hp⟩
    refine ⟨j, hj, ?_⟩
    rw [Function.update_of_ne hj]
    exact hp

/-- Sharing out the Buffers is the same seen from any list. -/
theorem shares_all (hdis : ∀ j k p, p ∈ chain j → p ∈ chain k → j = k)
    (h : Shares (elsewhere chain i) s (chain i)) (j : ℕ) :
    Shares (elsewhere chain j) s (chain j) := by
  have hplace : ∀ k p, p ∈ chain k → p ∈ chain i ∨ p ∈ elsewhere chain i := by
    intro k p hp
    by_cases hk : k = i
    · subst hk; exact Or.inl hp
    · exact Or.inr ⟨k, hk, hp⟩
  have hfree : ∀ k, ∀ p ∈ s.freeList, p ∉ chain k := fun k p hp hk =>
    (hplace k p hk).elim (h.free_chain p hp) (h.free_ctx p hp)
  refine { nodup := h.nodup, free_chain := hfree j, free_ctx := ?_, chain_ctx := ?_,
           made_iff := fun p => (h.made_iff p).trans ?_ }
  · rintro p hp ⟨k, _, hk⟩
    exact hfree k p hp hk
  · rintro p hp ⟨k, hkj, hk⟩
    exact hkj (hdis k j p hk hp)
  · constructor
    · rintro (hp | hp | ⟨k, _, hp⟩)
      · exact Or.inl hp
      · by_cases hij : i = j
        · subst hij; exact Or.inr (Or.inl hp)
        · exact Or.inr (Or.inr ⟨i, hij, hp⟩)
      · by_cases hkj : k = j
        · subst hkj; exact Or.inr (Or.inl hp)
        · exact Or.inr (Or.inr ⟨k, hkj, hp⟩)
    · rintro (hp | hp | ⟨k, _, hp⟩)
      · exact Or.inl hp
      · exact Or.inr (hplace j p hp)
      · exact Or.inr (hplace k p hp)

/-- The chains stay apart when one of them changes without touching the others. -/
theorem apart_update (hdis : ∀ j k p, p ∈ chain j → p ∈ chain k → j = k)
    (hc : ∀ p ∈ c, p ∉ elsewhere chain i) :
    ∀ j k p, p ∈ Function.update chain i c j → p ∈ Function.update chain i c k → j = k := by
  intro j k p hj hk
  by_cases hji : j = i <;> by_cases hki : k = i
  · rw [hji, hki]
  · subst hji
    rw [Function.update_self] at hj
    rw [Function.update_of_ne hki] at hk
    exact (hc p hj ⟨k, hki, hk⟩).elim
  · subst hki
    rw [Function.update_self] at hk
    rw [Function.update_of_ne hji] at hj
    exact (hc p hk ⟨j, hji, hj⟩).elim
  · rw [Function.update_of_ne hji] at hj
    rw [Function.update_of_ne hki] at hk
    exact hdis j k p hj hk

end Update

/-- What one operation on the list named `i` may change: its own list, its own Buffers, and the
free ones. -/
structure Local (t : Thread) (chain : ℕ → List BufferPtr) (i : ℕ) (t' : Thread)
    (chain' : ℕ → List BufferPtr) : Prop where
  lists : ∀ j, j ≠ i → t'.lists j = t.lists j
  chains : ∀ j, j ≠ i → chain' j = chain j
  heap : ∀ j, j ≠ i → ∀ p ∈ chain j, t'.mem.heap p = t.mem.heap p

namespace Shared

variable {t t' : Thread} {chain : ℕ → List BufferPtr} {i : ℕ}

/-- The thread after the list named `i` has been left with the chain `c`. -/
theorem update (hs : Shared t chain) {m : Memory ObjectList} {o : Option BufferList}
    {c : List BufferPtr}
    (hlive : ∀ l, o = some l → ∃ q, ListRep m.heap l c q) (hdead : o = none → c = [])
    (hshares : Shares (elsewhere chain i) m.pool c)
    (hframe : ∀ p ∈ elsewhere chain i, m.heap p = t.mem.heap p) :
    Shared ⟨m, Function.update t.lists i o⟩ (Function.update chain i c) ∧
      Local t chain i ⟨m, Function.update t.lists i o⟩ (Function.update chain i c) := by
  have hdis := apart_update (i := i) (fun j k p hj hk => hs.chain_unique hj hk)
    hshares.chain_ctx
  refine ⟨{ live := fun j l hj => ?_, dead := fun j hj => ?_, shares := ?_ },
    { lists := fun j hj => Function.update_of_ne hj _ _,
      chains := fun j hj => Function.update_of_ne hj _ _,
      heap := fun j hj p hp => hframe p ⟨j, hj, hp⟩ }⟩
  · by_cases hji : j = i
    · subst hji
      simp only [Function.update_self] at hj ⊢
      exact hlive l hj
    · simp only [Function.update_of_ne hji] at hj ⊢
      obtain ⟨q, hr⟩ := hs.live j l hj
      exact ⟨q, hr.congr fun p hp => hframe p ⟨j, hji, hp⟩⟩
  · by_cases hji : j = i
    · subst hji
      simp only [Function.update_self] at hj ⊢
      exact hdead hj
    · simp only [Function.update_of_ne hji] at hj ⊢
      exact hs.dead j hj
  · refine shares_all (i := i) hdis ?_
    rw [elsewhere_update, Function.update_self]
    exact hshares

theorem update_leaves (hs : Shared t chain) {m : Memory ObjectList} {l : BufferList}
    {q : List UInt8} (h : Leaves (Shares (elsewhere chain i)) (elsewhere chain i) t.mem q m l) :
    ∃ chain', Shared ⟨m, Function.update t.lists i (some l)⟩ chain' ∧
      Local t chain i ⟨m, Function.update t.lists i (some l)⟩ chain' := by
  obtain ⟨⟨c, hr, hshares⟩, hframe⟩ := h
  exact ⟨_, hs.update (fun l' hl' => ⟨q, by obtain rfl := Option.some.inj hl'; exact hr⟩)
    (by simp) hshares hframe⟩

/-- The whole chain has gone back to the free list. -/
theorem shares_freed (hs : Shared t chain) {m : Memory ObjectList}
    (hfreed : Freed t.mem (chain i) m) : Shares (elsewhere chain i) m.pool [] := by
  have h := hs.shares i
  refine { nodup := ?_, free_chain := by simp, free_ctx := ?_, chain_ctx := by simp,
           made_iff := fun p => ?_ }
  · rw [hfreed.freeList]
    exact List.nodup_append.mpr ⟨h.nodup, hs.nodup i, fun x hx y hy he =>
      h.free_chain x hx (by rw [he]; exact hy)⟩
  · intro p hp
    rw [hfreed.freeList] at hp
    exact (List.mem_append.mp hp).elim (h.free_ctx p) (h.chain_ctx p)
  · rw [hfreed.made, h.made_iff p, hfreed.freeList]
    simp only [List.mem_append, List.not_mem_nil, false_or, or_assoc]

/-- **Destruction of a list whose last Buffer carries no link**: it returns, and frees the Buffers
of its own chain. -/
theorem destroy_returns (hs : Shared t chain) {l : BufferList} (hi : t.lists i = some l)
    (hok : ∀ p, l.write = some p → (t.mem.heap p).next = none) :
    ∃ m, BufferList.destroy objectPool t.mem l = .ok m ∧ Freed t.mem (chain i) m := by
  obtain ⟨q, hr⟩ := hs.live i l hi
  obtain ⟨cs, p, hc⟩ : ∃ cs p, chain i = cs ++ [p] :=
    ⟨_, _, (List.dropLast_append_getLast hr.ne_nil).symm⟩
  have hlast : (t.mem.heap p).next = none := hok p (by rw [hr.write, hc]; simp)
  have hwalk : Walk (nextOf t.mem.heap) (chain i).head? (chain i) := by
    have hend : Walk (nextOf t.mem.heap) (nextOf t.mem.heap p) [] := by
      rw [nextOf, hlast]; exact .nil
    have := Walk.of_isChain (c := cs) (by rw [← hc]; exact hr.linked) hend
    rwa [List.append_nil, ← hc] at this
  have hlen : (chain i).length ≤ numBuffers := by simpa using hr.nodup.length_le_card
  unfold BufferList.destroy
  rw [hr.head]
  exact destroyLoop_of_walk hwalk _ (by omega)

/-- **The step lemma**: an operation keeps the invariant and touches nothing of another list. -/
theorem step (hs : Shared t chain) {op : ThreadOp} (hok : DestroyOk t op)
    (hstep : ThreadStep t op t') :
    ∃ chain', Shared t' chain' ∧ Local t chain op.list t' chain' := by
  cases hstep with
  | construct hi hrun =>
    rename_i i m l
    have hown : Shares (elsewhere chain i) t.mem.pool [] := by
      rw [← hs.dead i hi]; exact hs.shares i
    exact hs.update_leaves ((new_spec (objectPool_safe _) hown).of_eq_ok hrun)
  | write hi hrun =>
    rename_i i k src m l l'
    obtain ⟨q, hr⟩ := hs.live i l hi
    exact hs.update_leaves
      ((writeBytes_spec (objectPool_safe _) hr (hs.shares i) _).of_eq_ok hrun).2
  | read hi hrun =>
    rename_i i n k bytes m l l'
    obtain ⟨q, hr⟩ := hs.live i l hi
    exact hs.update_leaves
      ((readBytes_spec (objectPool_safe _) hr (hs.shares i) _).of_eq_ok hrun).2
  | destroy hi hrun =>
    rename_i i m l
    obtain ⟨m', hrun', hfreed⟩ := hs.destroy_returns hi fun p hp => hok i l p rfl hi hp
    obtain rfl : m' = m := Except.ok.inj (hrun'.symm.trans hrun)
    refine ⟨_, hs.update (by simp) (by simp) (hs.shares_freed hfreed) fun p hp =>
      hfreed.other p fun hc => (hs.shares i).chain_ctx p hc hp⟩

/-- **Destruction of a list whose last Buffer carries a link**: when it returns, the Buffer the
link leads to has been freed and is in the free list a second time, or in another list, or was
never made. -/
theorem not_partition_of_destroy (hs : Shared t chain) {l : BufferList} {p p' : BufferPtr}
    (hi : t.lists i = some l) (hwrite : l.write = some p) (hlink : (t.mem.heap p).next = some p')
    (hstep : ThreadStep t (.destroy i) t') : ¬ t'.Partition := by
  cases hstep with
  | destroy hi' hrun =>
    rename_i m l'
    obtain rfl : l = l' := Option.some.inj (hi.symm.trans hi')
    obtain ⟨q, hr⟩ := hs.live i l hi
    obtain ⟨cs, p₁, hc⟩ : ∃ cs p₁, chain i = cs ++ [p₁] :=
      ⟨_, _, (List.dropLast_append_getLast hr.ne_nil).symm⟩
    obtain rfl : p₁ = p := by
      have := hr.write
      rw [hwrite, hc] at this
      simpa using this.symm
    -- the walk of the destructor goes on behind the chain
    obtain ⟨w, hw, hlen⟩ := walk_of_destroyLoop hrun
    obtain ⟨m', hrun', hfreed⟩ := destroyLoop_of_walk hw _ hlen
    obtain rfl : m' = m := Except.ok.inj (hrun'.symm.trans hrun)
    rw [hr.head, hc] at hw
    obtain ⟨w', rfl, hw'⟩ := Walk.exists_append (by rw [← hc]; exact hr.linked) hw
    rw [nextOf, hlink] at hw'
    obtain ⟨w'', rfl⟩ : ∃ w'', w' = p' :: w'' := by
      cases hw' with
      | cons _ => exact ⟨_, rfl⟩
    rw [← hc] at hfreed
    rintro ⟨hmade, hpart⟩
    have hfree : p' ∈ m'.pool.freeList := by rw [hfreed.freeList]; simp
    have hcount : t.mem.pool.freeList.count p' + (chain i).count p' + 1 ≤
        m'.pool.freeList.count p' := by
      rw [hfreed.freeList]
      simp only [List.count_append, List.count_cons_self]
      omega
    rcases hpart p' (hmade p' hfree) with ⟨hone, hnone⟩ | ⟨hzero, -⟩
    · rcases ((hs.shares i).made_iff p').mp (by rw [← hfreed.made]; exact hmade p' hfree) with
        h | h | ⟨j, hj, h⟩
      · have := List.count_pos_iff.mpr h
        simp only [] at hone
        omega
      · have := List.count_pos_iff.mpr h
        simp only [] at hone
        omega
      · obtain ⟨lj, hlj, hin⟩ := hs.live_of_mem h
        refine hnone j lj ?_ (hin.congr fun x => hfreed.links x)
        simpa only [Function.update_of_ne hj] using hlj
    · exact (List.count_pos_iff.mpr hfree).ne' hzero

/-- An operation on one list leaves what another delivers unchanged. -/
theorem peek_eq_of_local {chain' : ℕ → List BufferPtr} (hs : Shared t chain)
    (hs' : Shared t' chain') (hloc : Local t chain i t' chain') {j : ℕ} (hj : j ≠ i) (n : ℕ) :
    t'.peek j n = t.peek j n := by
  cases hl : t.lists j with
  | none => simp [Thread.peek, hloc.lists j hj, hl]
  | some l =>
    obtain ⟨q, hr⟩ := hs.live j l hl
    have hr' : ListRep t'.mem.heap l (chain' j) q := by
      rw [hloc.chains j hj]
      exact hr.congr (hloc.heap j hj)
    rw [hs.peek_eq hl hr, hs'.peek_eq ((hloc.lists j hj).trans hl) hr']

end Shared

/-! ## Runs -/

/-- The first use of the pool makes its Buffers; no list is live. -/
theorem Thread.start_shared {h : Heap} {t : Thread} (hstart : Thread.start h = .ok t) :
    Shared t fun _ => [] := by
  have h0 : Shares ∅ ({ freeList := [], made := 0 } : ObjectList) [] :=
    { nodup := List.nodup_nil, free_chain := by simp, free_ctx := by simp, chain_ctx := by simp,
      made_iff := by simp }
  have hspec : Outcome (· = Fault.badAlloc)
      (fun t : Thread => Shares ∅ t.mem.pool [] ∧ ∀ i, t.lists i = none) (Thread.start h) := by
    unfold Thread.start ObjectList.allocate
    exact (Shares.allocateLoop _ (m := { heap := h, pool := { freeList := [], made := 0 } })
      h0).bind fun m hm => ⟨hm.1, fun _ => rfl⟩
  obtain ⟨hshares, hnone⟩ := hspec.of_eq_ok hstart
  refine { live := by simp [hnone], dead := fun _ _ => rfl, shares := fun i => ?_ }
  have : elsewhere (fun _ => ([] : List BufferPtr)) i = ∅ := by
    ext p; simp [elsewhere]
  rw [this]
  exact hshares

theorem shared_of_run {h : Heap} {t₀ t : Thread} {ops : List ThreadOp}
    (hstart : Thread.start h = .ok t₀)
    (hrun : Run (Lts.restrict ThreadStep DestroyOk) t₀ ops t) : ∃ chain, Shared t chain := by
  refine hrun.invariant (fun t => ∃ chain, Shared t chain) ?_
    ⟨_, Thread.start_shared hstart⟩
  rintro s op s' ⟨chain, hs⟩ ⟨hok, hstep⟩
  obtain ⟨chain', hs', _⟩ := hs.step hok hstep
  exact ⟨chain', hs'⟩

/-! ## A link that outlives its list -/

/-- The pool makes all its Buffers while there are addresses left. -/
theorem allocateLoop_ok : ∀ (i : ℕ) {m : Memory ObjectList}, m.pool.made + i ≤ numBuffers →
    (∀ p ∈ m.pool.freeList, p.val < m.pool.made ∧ (m.heap p).next = none) →
    ∃ m', ObjectList.allocateLoop i m = .ok m' ∧
      m'.pool.freeList.length = m.pool.freeList.length + i ∧
      ∀ p ∈ m'.pool.freeList, (m'.heap p).next = none
  | 0, m, _, hfree => ⟨m, rfl, rfl, fun p hp => (hfree p hp).2⟩
  | i + 1, m, hmade, hfree => by
    have hlt : m.pool.made < numBuffers := by omega
    simp only [ObjectList.allocateLoop, ObjectList.newBuffer, dif_pos hlt]
    obtain ⟨m', hrun, hlen, hnext⟩ := allocateLoop_ok i
      (m := ObjectList.pushBack ⟨Function.update m.heap ⟨m.pool.made, hlt⟩ Buffer.new,
        { m.pool with made := m.pool.made + 1 }⟩ ⟨m.pool.made, hlt⟩)
      (by simp only [ObjectList.pushBack]; omega) (by
        intro p hp
        rcases List.mem_append.mp hp with hp | hp
        · have hne : p ≠ ⟨m.pool.made, hlt⟩ := by
            rintro rfl
            exact absurd (hfree _ hp).1 (lt_irrefl _)
          simp only [ObjectList.pushBack, Function.update_of_ne hne]
          exact ⟨Nat.lt_succ_of_lt (hfree p hp).1, (hfree p hp).2⟩
        · obtain rfl : p = ⟨m.pool.made, hlt⟩ := by simpa using hp
          simp [ObjectList.pushBack, Buffer.new])
    refine ⟨m', hrun, ?_, hnext⟩
    rw [hlen]
    simp only [ObjectList.pushBack, List.length_append, List.length_singleton]
    omega

/-- The first use of the pool succeeds, and no Buffer carries a link yet. -/
theorem Thread.start_ok (h : Heap) :
    ∃ t, Thread.start h = .ok t ∧ t.mem.pool.freeList.length = kAllocObjectNumber ∧
      (∀ p ∈ t.mem.pool.freeList, (t.mem.heap p).next = none) ∧ ∀ i, t.lists i = none := by
  obtain ⟨m, hrun, hlen, hnext⟩ := allocateLoop_ok kAllocObjectNumber
    (m := { heap := h, pool := { freeList := [], made := 0 } })
    (by simp [kAllocObjectNumber, numBuffers]) (by simp)
  refine ⟨⟨m, fun _ => none⟩, ?_, by simpa using hlen, hnext, fun _ => rfl⟩
  simp only [Thread.start, ObjectList.allocate, hrun]
  rfl

section Recycled

variable {t : Thread}

/-- A list that has just got the Buffer `p`. -/
def BufferList.fresh (p : BufferPtr) : BufferList where
  readInx := 0
  writeInx := 0
  head := some p
  read := some p
  write := some p
  writeSize := 0
  readSize := 0

/-- `Get` while the free list is not empty. -/
theorem get_eq {m : Memory ObjectList} {p : BufferPtr} {rest : List BufferPtr}
    (hfree : m.pool.freeList = p :: rest) :
    objectPool.getObject m = .ok (p, { m with pool := { m.pool with freeList := rest } }) := by
  have hne : m.pool.freeList.isEmpty = false := by rw [hfree]; rfl
  have hif : ObjectList.allocateIfEmpty m = .ok m := by simp [ObjectList.allocateIfEmpty, hne]
  change ObjectList.get m = _
  simp only [ObjectList.get, hif, ok_bind, hfree]
  rfl

/-- Constructing a list while the free list is not empty. -/
theorem construct_step {i : ℕ} {p : BufferPtr} {rest : List BufferPtr} (hi : t.lists i = none)
    (hfree : t.mem.pool.freeList = p :: rest) :
    ThreadStep t (.construct i)
      ⟨⟨t.mem.heap, { t.mem.pool with freeList := rest }⟩,
        Function.update t.lists i (some (.fresh p))⟩ :=
  .construct hi (by simp only [BufferList.new, get_eq hfree]; rfl)

/-- Constructing as many lists as it takes to bring the Buffers `qs` to the front. -/
theorem construct_run (qs : List BufferPtr) : ∀ (ps : List BufferPtr) (i : ℕ) {t : Thread},
    (∀ j, i ≤ j → t.lists j = none) → t.mem.pool.freeList = ps ++ qs →
    ∃ t', Run ThreadStep t ((List.range' i ps.length).map ThreadOp.construct) t' ∧
      t'.mem.heap = t.mem.heap ∧ t'.mem.pool.freeList = qs ∧
      (∀ j, j < i → t'.lists j = t.lists j) ∧ ∀ j, i + ps.length ≤ j → t'.lists j = none
  | [], i, t, hnone, hfree => ⟨t, .nil t, rfl, hfree, fun _ _ => rfl, fun j hj => hnone j hj⟩
  | p :: ps, i, t, hnone, hfree => by
    have hstep := construct_step (hnone i le_rfl) hfree
    obtain ⟨t', hrun, hheap, hfree', hold, hnew⟩ := construct_run qs ps (i + 1)
      (t := ⟨⟨t.mem.heap, { t.mem.pool with freeList := ps ++ qs }⟩,
        Function.update t.lists i (some (.fresh p))⟩)
      (fun j hj => (Function.update_of_ne (by omega) _ _).trans (hnone j (by omega))) rfl
    refine ⟨t', .cons hstep hrun, hheap, hfree', fun j hj => ?_, fun j hj => ?_⟩
    · exact (hold j (by omega)).trans (Function.update_of_ne (by omega) _ _)
    · exact hnew j (by simp only [List.length_cons] at hj; omega)

theorem wordAdd_kBufferSize : wordAdd 0 kBufferSize = kBufferSize := by decide

/-- A new list is written full: it takes a second Buffer from the pool, behind the first. -/
theorem write_full {m : Memory ObjectList} {a b : BufferPtr} {rest : List BufferPtr}
    {src : List UInt8} (hsrc : src.length = kBufferSize) (hfree : m.pool.freeList = b :: rest) :
    ∃ m', BufferList.writeBytes objectPool m (.fresh a) src = .ok (kBufferSize, m',
        { BufferList.fresh a with write := some b, writeSize := kBufferSize }) ∧
      m'.pool = { m.pool with freeList := rest } ∧ (m'.heap a).next = some b ∧
      ∀ p, p ≠ a → m'.heap p = m.heap p := by
  let heap₁ := Function.update m.heap a
    ((m.heap a).setData (Memory.overwrite (m.heap a).data 0 src))
  let heap₂ := Function.update heap₁ a ((heap₁ a).setNext (some b))
  have hget : objectPool.getObject ⟨heap₁, m.pool⟩ =
      .ok (b, ⟨heap₁, { m.pool with freeList := rest }⟩) := get_eq hfree
  refine ⟨⟨heap₂, { m.pool with freeList := rest }⟩, ?_, rfl, by simp [heap₂], ?_⟩
  · rw [BufferList.writeBytes, writeLoop_last _ _ _ _ (by rw [hsrc]; decide)
      (by rw [hsrc]; exact (by decide : kBufferSize ≤ wordSub kBufferSize 0))]
    simp only [BufferList.fill, BufferList.copyToWritePoint, BufferList.fresh, deref,
      Memory.copyIn, hsrc, BufferList.writeAdvance, wordAdd_kBufferSize, Nat.zero_add, le_refl,
      if_true, ok_bind]
    rw [hget]
    rfl
  · intro p hp
    simp [heap₂, heap₁, hp]

/-- A Buffer written full and read empty goes back to the pool with its link. -/
theorem recycle_run {a b : BufferPtr} {rest : List BufferPtr} (src : List UInt8) (hab : a ≠ b)
    (hsrc : src.length = kBufferSize) (hnone : ∀ i, t.lists i = none)
    (hfree : t.mem.pool.freeList = a :: b :: rest) (hb : (t.mem.heap b).next = none) :
    ∃ t' l, Run ThreadStep t [.construct 0, .write 0 src, .read 0 kBufferSize] t' ∧
      t'.mem.pool.freeList = rest ++ [a] ∧ (t'.mem.heap a).next = some b ∧
      (t'.mem.heap b).next = none ∧ t'.lists 0 = some l ∧ l.head = some b ∧
      l.write = some b ∧ ∀ i, i ≠ 0 → t'.lists i = none := by
  let l₂ : BufferList := { BufferList.fresh a with write := some b, writeSize := kBufferSize }
  let l₃ : BufferList :=
    { BufferList.fresh b with writeSize := kBufferSize, readSize := kBufferSize }
  obtain ⟨m, hwrite, hpool, hnext, hother⟩ := write_full (a := a)
    (m := ⟨t.mem.heap, { t.mem.pool with freeList := b :: rest }⟩) hsrc rfl
  have hread : ∃ r, BufferList.readBytes objectPool m l₂ kBufferSize =
      .ok (r, ObjectList.free m a, l₃) := by
    have hcur : l₂.currentBufferReadSize = kBufferSize := by
      rw [BufferList.currentBufferReadSize,
        if_neg (show l₂.read ≠ l₂.write from fun h => hab (Option.some.inj h))]
      exact (by decide : wordSub kBufferSize 0 = kBufferSize)
    rw [BufferList.readBytes, readLoop_last _ _ _ _ (by decide)
      (by exact (by decide : wordSub kBufferSize 0 ≠ 0)) hcur.ge]
    simp only [BufferList.drain, BufferList.copyFromReadPoint, deref, Memory.copyOut,
      BufferList.readAdvance, l₂, BufferList.fresh, wordAdd_kBufferSize, Nat.zero_add, le_refl,
      if_true, ok_bind, hnext]
    exact ⟨_, rfl⟩
  obtain ⟨⟨k, bytes⟩, hread⟩ := hread
  refine ⟨_, l₃, .cons (construct_step (hnone 0) hfree) (.cons (.write (by simp) hwrite)
    (.single (.read (by simp [l₂]) hread))), ?_, ?_, ?_, by simp, rfl, rfl, fun i hi => ?_⟩
  · simp [ObjectList.free, ObjectList.pushBack, hpool]
  · simp [ObjectList.free, ObjectList.pushBack, hnext]
  · simp [ObjectList.free, ObjectList.pushBack, hother b hab.symm, hab.symm, hb]
  · simp [hi, hnone]

end Recycled

/-! ## The result -/

/-- **The Buffers of a thread are shared out** between the free list and the live lists, in every
state reached without destroying a list whose last Buffer carries a link. From such a state an
operation on one list changes nothing another delivers, and destroying a list that meets the
condition returns and frees the Buffers of its own chain; destroying one that does not breaks the
partition, if it returns. -/
theorem thread_partition {h : Heap} {t₀ t : Thread} {ops : List ThreadOp}
    (hstart : Thread.start h = .ok t₀)
    (hrun : Run (Lts.restrict ThreadStep DestroyOk) t₀ ops t) :
    t.Partition ∧
    (∀ op t', DestroyOk t op → ThreadStep t op t' →
      ∀ j n, j ≠ op.list → t'.peek j n = t.peek j n) ∧
    (∀ i l, t.lists i = some l → DestroyOk t (.destroy i) →
      ∃ c m, c.Nodup ∧ (∀ p, p ∈ c ↔ InList t.mem.heap l p) ∧
        BufferList.destroy objectPool t.mem l = .ok m ∧
        m.pool.freeList = t.mem.pool.freeList ++ c) ∧
    (∀ i t', ¬ DestroyOk t (.destroy i) → ThreadStep t (.destroy i) t' → ¬ t'.Partition) := by
  obtain ⟨chain, hs⟩ := shared_of_run hstart hrun
  refine ⟨hs.partition, ?_, ?_, ?_⟩
  · intro op t' hok hstep j n hj
    obtain ⟨chain', hs', hloc⟩ := hs.step hok hstep
    exact hs.peek_eq_of_local hs' hloc hj n
  · intro i l hi hok
    obtain ⟨m, hrun', hfreed⟩ := hs.destroy_returns hi fun p hp => hok i l p rfl hi hp
    obtain ⟨q, hr⟩ := hs.live i l hi
    exact ⟨chain i, m, hs.nodup i, fun p => hr.inList_iff.symm, hrun', hfreed.freeList⟩
  · intro i t' hbad hstep
    obtain ⟨l, p, hi, hwrite, hlink⟩ : ∃ l p, t.lists i = some l ∧ l.write = some p ∧
        (t.mem.heap p).next ≠ none := by
      simp only [DestroyOk, not_forall] at hbad
      obtain ⟨j, l, p, hop, hi, hwrite, hlink⟩ := hbad
      obtain rfl := ThreadOp.destroy.inj hop
      exact ⟨l, p, hi, hwrite, hlink⟩
    obtain ⟨p', hp'⟩ := Option.ne_none_iff_exists'.mp hlink
    exact hs.not_partition_of_destroy hi hwrite hp' hstep

/-- Runs that destroy no list meet the condition. -/
theorem destroyOk_run {t t' : Thread} {ops : List ThreadOp} (hrun : Run ThreadStep t ops t')
    (hops : ∀ i, ThreadOp.destroy i ∉ ops) : Run (Lts.restrict ThreadStep DestroyOk) t ops t' := by
  induction hrun with
  | nil t => exact .nil t
  | @cons t t₁ t' op ops hs hrest ih =>
    refine .cons ⟨?_, hs⟩ (ih fun i hi => hops i (List.mem_cons_of_mem _ hi))
    rintro i l p rfl
    exact absurd List.mem_cons_self (hops i)

/-- The first two Buffers of the pool. -/
theorem Thread.start_two (h : Heap) :
    ∃ t a b rest, Thread.start h = .ok t ∧ t.mem.pool.freeList = a :: b :: rest ∧ a ≠ b ∧
      rest.length = 98 ∧ (t.mem.heap b).next = none ∧ ∀ i, t.lists i = none := by
  obtain ⟨t, hstart, hlen, hnext, hnone⟩ := Thread.start_ok h
  obtain ⟨a, b, rest, hfree⟩ : ∃ a b rest, t.mem.pool.freeList = a :: b :: rest := by
    match hf : t.mem.pool.freeList with
    | [] | [_] => rw [hf] at hlen; simp [kAllocObjectNumber] at hlen
    | a :: b :: rest => exact ⟨a, b, rest, rfl⟩
  refine ⟨t, a, b, rest, hstart, hfree, ?_, ?_, hnext b (by rw [hfree]; simp), hnone⟩
  · have hnodup := ((Thread.start_shared hstart).shares 0).nodup
    rw [hfree] at hnodup
    rintro rfl
    simp at hnodup
  · rw [hfree] at hlen
    simpa [kAllocObjectNumber] using hlen

/-- List 0 fills and empties one Buffer and is destroyed; lists 1 to 98 take the rest of the free
list; list 99 gets the Buffer that list 0 gave back, with its old link, which filling it replaces,
and is destroyed. -/
theorem thread_partition_recycled :
    ∃ t₀ t, Thread.start (fun _ => Buffer.new) = .ok t₀ ∧
      Run (Lts.restrict ThreadStep DestroyOk) t₀
        ([.construct 0, .write 0 (List.replicate kBufferSize 0), .read 0 kBufferSize, .destroy 0] ++
          ((List.range' 1 98).map .construct ++
            [.construct 99, .write 99 (List.replicate kBufferSize 1), .destroy 99])) t ∧
      t.Partition := by
  obtain ⟨t₀, a, b, rest, hstart, hfree, hab, hrest, hb, hnone⟩ := Thread.start_two fun _ => .new
  obtain ⟨t₁, l, hrun₁, hfree₁, ha₁, hb₁, hl, hhead, hwrite₁, hnone₁⟩ :=
    recycle_run (List.replicate kBufferSize 0) hab List.length_replicate hnone hfree hb
  -- list 0 is destroyed
  have hwalk₁ : Walk (nextOf t₁.mem.heap) (some b) [b] := .cons (by rw [nextOf, hb₁]; exact .nil)
  obtain ⟨m₂, hdestroy₂, hfreed₂⟩ := destroyLoop_of_walk hwalk₁ (numBuffers + 1) (by simp)
  have hok₂ : DestroyOk t₁ (.destroy 0) := by
    rintro i l' p hop hl' hp
    obtain rfl := ThreadOp.destroy.inj hop
    obtain rfl := Option.some.inj (hl.symm.trans hl')
    obtain rfl := Option.some.inj (hwrite₁.symm.trans hp)
    exact hb₁
  have hstep₂ := ThreadStep.destroy hl (hhead ▸ hdestroy₂)
  have hfree₂ : m₂.pool.freeList = rest ++ [a, b] := by rw [hfreed₂.freeList, hfree₁]; simp
  -- the other lists
  obtain ⟨t₃, hrun₃, hheap₃, hfree₃, -, hnone₃⟩ := construct_run [a, b] rest 1
    (t := ⟨m₂, Function.update t₁.lists 0 none⟩)
    (fun j hj => (Function.update_of_ne (by omega) _ _).trans (hnone₁ j (by omega))) hfree₂
  rw [hrest] at hrun₃ hnone₃
  have hstep₄ := construct_step (hnone₃ 99 le_rfl) hfree₃
  have hones : (List.replicate kBufferSize (1 : UInt8)).length = kBufferSize :=
    List.length_replicate
  obtain ⟨m₅, hwrite₅, -, ha₅, hother₅⟩ := write_full (a := a) hones
    (m := ⟨t₃.mem.heap, { t₃.mem.pool with freeList := [b] }⟩) rfl
  have hb₅ : (m₅.heap b).next = none := by
    rw [hother₅ b hab.symm, hheap₃]
    exact (hfreed₂.links b).trans hb₁
  have hwalk₅ : Walk (nextOf m₅.heap) (some a) [a, b] := by
    refine .cons ?_
    rw [nextOf, ha₅]
    exact .cons (by rw [nextOf, hb₅]; exact .nil)
  obtain ⟨m₆, hdestroy₆, -⟩ := destroyLoop_of_walk hwalk₅ (numBuffers + 1) (by simp [numBuffers])
  let l₅ : BufferList := { BufferList.fresh a with write := some b, writeSize := kBufferSize }
  let lists₄ := Function.update t₃.lists 99 (some (.fresh a))
  let lists₅ := Function.update lists₄ 99 (some l₅)
  have hl₄ : lists₄ 99 = some (.fresh a) := Function.update_self ..
  have hl₅ : lists₅ 99 = some l₅ := Function.update_self ..
  have hstep₅ : ThreadStep ⟨_, lists₄⟩ (.write 99 (List.replicate kBufferSize 1)) ⟨m₅, lists₅⟩ :=
    .write hl₄ hwrite₅
  have hstep₆ : ThreadStep ⟨m₅, lists₅⟩ (.destroy 99) ⟨m₆, Function.update lists₅ 99 none⟩ :=
    .destroy hl₅ hdestroy₆
  have hok₆ : DestroyOk ⟨m₅, lists₅⟩ (.destroy 99) := by
    rintro i l' p hop hl' hp
    obtain rfl := ThreadOp.destroy.inj hop
    obtain rfl := Option.some.inj (hl₅.symm.trans hl')
    obtain rfl := Option.some.inj hp
    exact hb₅
  have hrun := (destroyOk_run hrun₁ (by simp)).append (.cons ⟨hok₂, hstep₂⟩
    ((destroyOk_run hrun₃ (by simp)).append (.cons ⟨by simp [DestroyOk], hstep₄⟩
      (.cons ⟨by simp [DestroyOk], hstep₅⟩ (.single ⟨hok₆, hstep₆⟩)))))
  exact ⟨t₀, _, hstart, hrun, (thread_partition hstart hrun).1⟩

/-- List 0 fills and empties one Buffer; lists 1 to 98 take the rest of the free list; list 99 gets
the Buffer that list 0 gave back. Its destructor goes on to the Buffer list 0 is using. -/
theorem thread_partition_stale_link :
    ∃ t₀ t, Thread.start (fun _ => Buffer.new) = .ok t₀ ∧
      Run ThreadStep t₀
        ([.construct 0, .write 0 (List.replicate kBufferSize 0), .read 0 kBufferSize] ++
          ((List.range' 1 98).map .construct ++ [.construct 99, .destroy 99])) t ∧
      ¬ t.Partition := by
  obtain ⟨t₀, a, b, rest, hstart, hfree, hab, hrest, hb, hnone⟩ := Thread.start_two fun _ => .new
  obtain ⟨t₁, l, hrun₁, hfree₁, ha, hb, hl, hhead, -, hnone₁⟩ :=
    recycle_run (List.replicate kBufferSize 0) hab List.length_replicate hnone hfree hb
  obtain ⟨t₂, hrun₂, hheap₂, hfree₂, hold₂, hnone₂⟩ := construct_run [a] rest 1
    (fun j hj => hnone₁ j (by omega)) hfree₁
  rw [hrest] at hrun₂ hnone₂
  have hstep₃ := construct_step (hnone₂ 99 le_rfl) hfree₂
  -- the destructor of list 99 goes along `a` and `b`
  have hwalk : Walk (nextOf t₂.mem.heap) (some a) [a, b] := by
    rw [hheap₂]
    refine .cons ?_
    rw [nextOf, ha]
    refine .cons ?_
    rw [nextOf, hb]
    exact .nil
  obtain ⟨m, hdestroy, hfreed⟩ := destroyLoop_of_walk
    (m := ⟨t₂.mem.heap, { t₂.mem.pool with freeList := [] }⟩) hwalk (numBuffers + 1)
    (by simp [numBuffers])
  have hstep₄ := ThreadStep.destroy (t := ⟨_, Function.update t₂.lists 99 (some (.fresh a))⟩)
    (l := .fresh a) (Function.update_self ..) hdestroy
  refine ⟨t₀, _, hstart, hrun₁.append (hrun₂.append (.cons hstep₃ (.single hstep₄))), ?_⟩
  rintro ⟨hmade, hpart⟩
  have hmem : b ∈ m.pool.freeList := by rw [hfreed.freeList]; simp
  rcases hpart b (hmade b hmem) with ⟨-, hnot⟩ | ⟨hzero, -⟩
  · refine hnot 0 l ?_ (.head hhead)
    simp [hold₂ 0 (by decide), hl]
  · exact (List.count_pos_iff.mpr hmem).ne' hzero

end ServerKit
