import Mathlib.Order.Lattice
import Mathlib.Data.List.Pairwise
import Mathlib.Data.List.TakeWhile
import Mathlib.Data.List.Basic
import Mathlib.Data.Nat.Notation

/-!
# Multimaps with iterators

A multimap is a list of nodes in the order of their keys, in which a new node goes behind those with
its key. Nodes have identities that are never used again, so an iterator, which is the identity of a
node or the end, goes on meaning the same element while others are inserted and erased, and means
none once its own is erased.
-/

namespace ServerKit.Lib

universe u v

/-- An element of a multimap. -/
structure Multimap.Node (K : Type u) (V : Type v) where
  id : ℕ
  key : K
  val : V
deriving DecidableEq, Repr

/-- A multimap. `fresh` is the identity of the next node. -/
structure Multimap (K : Type u) (V : Type v) [LinearOrder K] where
  nodes : List (Multimap.Node K V)
  fresh : ℕ
  sorted : nodes.Pairwise fun a b => a.key ≤ b.key
  distinct : nodes.Pairwise fun a b => a.id ≠ b.id
  below : ∀ n ∈ nodes, n.id < fresh

namespace Multimap

variable {K : Type u} {V : Type v} [LinearOrder K]

/-! ## Operations -/

/-- The empty multimap. -/
def empty : Multimap K V where
  nodes := []
  fresh := 0
  sorted := .nil
  distinct := .nil
  below := nofun

/-- The nodes with a node inserted behind those whose keys are not greater. -/
def insertNode (n : Node K V) (l : List (Node K V)) : List (Node K V) :=
  l.takeWhile (fun a => a.key ≤ n.key) ++ n :: l.dropWhile (fun a => a.key ≤ n.key)

/-- The iterator to the first of some nodes. -/
def first (l : List (Node K V)) : Option ℕ := l.head?.map Node.id

/-- `begin()`. -/
def begin_ (m : Multimap K V) : Option ℕ := first m.nodes

/-- `lower_bound(k)`. -/
def lowerBound (m : Multimap K V) (k : K) : Option ℕ := first (m.nodes.dropWhile fun n => n.key < k)

/-- `upper_bound(k)`. -/
def upperBound (m : Multimap K V) (k : K) : Option ℕ := first (m.nodes.dropWhile fun n => n.key ≤ k)

/-- What the iterator `i` points to, unless it has been erased. -/
def get (m : Multimap K V) (i : ℕ) : Option (Node K V) := m.nodes.find? fun n => n.id = i

/-- The iterator behind the node `i` of a list. -/
def nextIn (i : ℕ) : List (Node K V) → Option (Option ℕ)
  | [] => none
  | n :: rest => if n.id = i then some (first rest) else nextIn i rest

/-- `++i`, unless `i` has been erased. -/
def next (m : Multimap K V) (i : ℕ) : Option (Option ℕ) := nextIn i m.nodes

/-- `erase(i)`, unless `i` has been erased. -/
def erase (m : Multimap K V) (i : ℕ) : Option (Multimap K V) :=
  if (m.get i).isSome then
    some
      { nodes := m.nodes.eraseP fun n => n.id = i
        fresh := m.fresh
        sorted := m.sorted.sublist List.eraseP_sublist
        distinct := m.distinct.sublist List.eraseP_sublist
        below := fun n hn => m.below n (List.mem_of_mem_eraseP hn) }
  else none

/-! ## Insertion -/

section Insert

variable {l : List (Node K V)} {n a : Node K V}

theorem insertNode_perm : (insertNode n l).Perm (n :: l) := by
  refine List.perm_middle.trans ?_
  rw [List.takeWhile_append_dropWhile]

theorem mem_insertNode : a ∈ insertNode n l ↔ a = n ∨ a ∈ l := by
  rw [insertNode_perm.mem_iff, List.mem_cons]

theorem sublist_insertNode : l.Sublist (insertNode n l) := by
  have hsub := (List.sublist_cons_self n (l.dropWhile fun a => a.key ≤ n.key)).append_left
    (l.takeWhile fun a => a.key ≤ n.key)
  rwa [List.takeWhile_append_dropWhile] at hsub

/-- Nodes that a new node goes behind. -/
theorem insertNode_append {l' : List (Node K V)} (h : ∀ a ∈ l, a.key ≤ n.key) :
    insertNode n (l ++ l') = l ++ insertNode n l' := by
  unfold insertNode
  have hall : ∀ a ∈ l, decide (a.key ≤ n.key) = true := fun a ha => decide_eq_true (h a ha)
  rw [List.takeWhile_append_of_pos hall, List.dropWhile_append_of_pos hall, List.append_assoc]

/-- A node that a new node goes in front of. -/
theorem insertNode_append_of_lt {c : Node K V} {l' : List (Node K V)} (h : n.key < c.key) :
    insertNode n (l ++ c :: l') = insertNode n l ++ c :: l' := by
  unfold insertNode
  induction l with
  | nil => simp [not_le_of_gt h]
  | cons a l ih =>
    by_cases ha : a.key ≤ n.key
    · simpa [ha] using ih
    · simp [ha]

/-- Once a test that is harder to pass for greater keys has failed, it goes on failing. -/
theorem not_of_mem_dropWhile (hl : l.Pairwise fun a b => a.key ≤ b.key) {p : Node K V → Bool}
    (hp : ∀ a b, a.key ≤ b.key → p b → p a) (ha : a ∈ l.dropWhile p) : ¬ p a := by
  induction l with
  | nil => cases ha
  | cons b l ih =>
    obtain ⟨hb, hl⟩ := List.pairwise_cons.mp hl
    rw [List.dropWhile_cons] at ha
    split at ha
    · exact ih hl ha
    · rename_i hfail
      obtain rfl | ha := List.mem_cons.mp ha
      · exact hfail
      · exact fun hpass => hfail (hp b a (hb a ha) hpass)

theorem lt_of_mem_dropWhile_le (hl : l.Pairwise fun a b => a.key ≤ b.key) {k : K}
    (ha : a ∈ l.dropWhile fun a => a.key ≤ k) : k < a.key := by
  have := not_of_mem_dropWhile hl (fun a b hab hb => by
    simp only [decide_eq_true_eq] at hb ⊢
    exact hab.trans hb) ha
  simpa using this

theorem le_of_mem_dropWhile_lt (hl : l.Pairwise fun a b => a.key ≤ b.key) {k : K}
    (ha : a ∈ l.dropWhile fun a => a.key < k) : k ≤ a.key := by
  have := not_of_mem_dropWhile hl (fun a b hab hb => by
    simp only [decide_eq_true_eq] at hb ⊢
    exact hab.trans_lt hb) ha
  simpa using this

theorem le_of_mem_takeWhile_le {k : K} (ha : a ∈ l.takeWhile fun a => a.key ≤ k) : a.key ≤ k := by
  simpa using List.mem_takeWhile_imp ha

theorem lt_of_mem_takeWhile_lt {k : K} (ha : a ∈ l.takeWhile fun a => a.key < k) : a.key < k := by
  simpa using List.mem_takeWhile_imp ha

theorem insertNode_sorted (hl : l.Pairwise fun a b => a.key ≤ b.key) :
    (insertNode n l).Pairwise fun a b => a.key ≤ b.key := by
  have hsplit := hl
  rw [← List.takeWhile_append_dropWhile (p := fun a : Node K V => a.key ≤ n.key) (l := l),
    List.pairwise_append] at hsplit
  obtain ⟨htake, hdrop, hcross⟩ := hsplit
  refine List.pairwise_append.mpr ⟨htake, List.pairwise_cons.mpr ⟨?_, hdrop⟩, ?_⟩
  · exact fun b hb => (lt_of_mem_dropWhile_le hl hb).le
  · intro a ha b hb
    obtain rfl | hb := List.mem_cons.mp hb
    · exact le_of_mem_takeWhile_le ha
    · exact hcross a ha b hb

end Insert

/-- `insert` of a pair. -/
def insert (m : Multimap K V) (k : K) (v : V) : Multimap K V where
  nodes := insertNode ⟨m.fresh, k, v⟩ m.nodes
  fresh := m.fresh + 1
  sorted := insertNode_sorted m.sorted
  distinct := by
    refine (List.Perm.pairwise_iff (fun h => h.symm) insertNode_perm).mpr
      (List.pairwise_cons.mpr ⟨fun b hb => ?_, m.distinct⟩)
    exact Nat.ne_of_gt (m.below b hb)
  below := fun n hn => by
    obtain rfl | hn := mem_insertNode.mp hn
    · exact Nat.lt_succ_self _
    · exact Nat.lt_succ_of_lt (m.below n hn)

/-! ## The order of insertion -/

/-- Nodes with one key are in the order of their insertion. -/
def InOrder (l : List (Node K V)) : Prop :=
  l.Pairwise fun a b => a.key < b.key ∨ a.key = b.key ∧ a.id < b.id

theorem insert_inOrder {m : Multimap K V} (h : InOrder m.nodes) (k : K) (v : V) :
    InOrder (m.insert k v).nodes := by
  have hsplit := h
  rw [InOrder, ← List.takeWhile_append_dropWhile (p := fun a : Node K V => a.key ≤ k)
    (l := m.nodes), List.pairwise_append] at hsplit
  obtain ⟨htake, hdrop, hcross⟩ := hsplit
  refine List.pairwise_append.mpr ⟨htake, List.pairwise_cons.mpr ⟨?_, hdrop⟩, ?_⟩
  · intro b hb
    exact .inl (lt_of_mem_dropWhile_le m.sorted hb)
  · intro a ha b hb
    obtain rfl | hb := List.mem_cons.mp hb
    · have hid : a.id < m.fresh := m.below a (List.takeWhile_subset _ ha)
      exact (lt_or_eq_of_le (le_of_mem_takeWhile_le ha)).imp_right fun heq => ⟨heq, hid⟩
    · exact hcross a ha b hb

/-! ## Iterators -/

/-- A multimap whose only node is `n`. -/
theorem eq_singleton (m : Multimap K V) {n : Node K V} (hn : n ∈ m.nodes)
    (hall : ∀ a ∈ m.nodes, a = n) : m.nodes = [n] := by
  have hdistinct := m.distinct
  cases hlist : m.nodes with
  | nil =>
    rw [hlist] at hn
    cases hn
  | cons a l =>
    rw [hlist] at hdistinct hall
    have ha := hall a List.mem_cons_self
    cases l with
    | nil => rw [ha]
    | cons b l =>
      have hb := hall b (List.mem_cons_of_mem _ List.mem_cons_self)
      have hne := (List.pairwise_cons.mp hdistinct).1 b List.mem_cons_self
      rw [ha, hb] at hne
      exact absurd rfl hne

section Iterators

variable {m : Multimap K V} {a b : List (Node K V)} {n : Node K V} {k : K}

theorem id_ne_of_mem (h : m.nodes = a ++ n :: b) {c : Node K V} (hc : c ∈ a) : c.id ≠ n.id := by
  have := m.distinct
  rw [h] at this
  exact (List.pairwise_append.mp this).2.2 c hc n List.mem_cons_self

theorem split_unique {a' b' : List (Node K V)} (h : m.nodes = a ++ n :: b)
    (h' : m.nodes = a' ++ n :: b') : a = a' ∧ b = b' := by
  have hdistinct := m.distinct
  rw [h] at hdistinct
  have ha : n ∉ a := fun hn => id_ne_of_mem h hn rfl
  have hb : n ∉ b := fun hn => by
    have hcons := (List.pairwise_append.mp hdistinct).2.1
    exact (List.pairwise_cons.mp hcons).1 n hn rfl
  obtain ⟨hl, -, hr⟩ := (List.append_cons_inj_of_notMem ha hb).mp (h.symm.trans h')
  exact ⟨hl, hr⟩

theorem eq_of_id {c : Node K V} (hn : n ∈ m.nodes) (hc : c ∈ m.nodes) (hid : c.id = n.id) :
    c = n := by
  obtain ⟨a, b, hsplit⟩ := List.append_of_mem hn
  have hdistinct := m.distinct
  rw [hsplit] at hdistinct hc
  obtain ⟨-, hcons, ha⟩ := List.pairwise_append.mp hdistinct
  rcases List.mem_append.mp hc with hc | hc
  · exact absurd hid (ha c hc n List.mem_cons_self)
  · rcases List.mem_cons.mp hc with rfl | hc
    · rfl
    · exact absurd hid.symm ((List.pairwise_cons.mp hcons).1 c hc)

/-- The nodes other than one. -/
theorem mem_rest_iff (h : m.nodes = a ++ n :: b) {c : Node K V} :
    c ∈ a ++ b ↔ c ∈ m.nodes ∧ c ≠ n := by
  have hdistinct := m.distinct
  rw [h] at hdistinct ⊢
  have hperm : (a ++ n :: b).Perm (n :: (a ++ b)) := List.perm_middle
  rw [hperm.mem_iff, List.mem_cons]
  have hne : ∀ d ∈ a ++ b, d ≠ n := by
    rintro d hd rfl
    have hcons := (List.Perm.pairwise_iff (fun h => h.symm) List.perm_middle).mp hdistinct
    exact (List.pairwise_cons.mp hcons).1 d hd rfl
  constructor
  · intro hc
    exact ⟨.inr hc, hne c hc⟩
  · rintro ⟨hc, hcn⟩
    exact hc.resolve_left hcn

theorem get_eq (h : m.nodes = a ++ n :: b) : m.get n.id = some n := by
  rw [get, h, List.find?_append, List.find?_eq_none.mpr]
  · simp
  · intro c hc
    simpa using id_ne_of_mem h hc

theorem next_eq (h : m.nodes = a ++ n :: b) : m.next n.id = some (first b) := by
  have hne := fun c hc => id_ne_of_mem h (c := c) hc
  rw [next, h]
  clear h
  induction a with
  | nil => exact if_pos rfl
  | cons c a ih =>
    change (if c.id = n.id then _ else _) = _
    rw [if_neg (hne c List.mem_cons_self)]
    exact ih fun d hd => hne d (List.mem_cons_of_mem _ hd)

theorem erase_eq (h : m.nodes = a ++ n :: b) :
    ∃ m', m.erase n.id = some m' ∧ m'.nodes = a ++ b ∧ m'.fresh = m.fresh := by
  refine ⟨_, if_pos (by rw [get_eq h]; rfl), ?_, rfl⟩
  change m.nodes.eraseP _ = a ++ b
  rw [h, List.eraseP_append_right]
  · simp
  · intro c hc
    simpa using id_ne_of_mem h hc

theorem erase_sublist {i : ℕ} {m' : Multimap K V} (h : m.erase i = some m') :
    m'.nodes.Sublist m.nodes ∧ m'.fresh = m.fresh := by
  unfold erase at h
  split at h
  · obtain rfl := Option.some.inj h
    exact ⟨List.eraseP_sublist, rfl⟩
  · cases h

/-- What an iterator that means something points to. -/
theorem exists_of_get {i : ℕ} (h : m.get i = some n) :
    ∃ a b, m.nodes = a ++ n :: b ∧ n.id = i := by
  obtain ⟨a, b, hsplit⟩ := List.append_of_mem (List.mem_of_find?_eq_some h)
  exact ⟨a, b, hsplit, by simpa using List.find?_some h⟩

theorem exists_of_next {i : ℕ} {pos : Option ℕ} (h : m.next i = some pos) :
    ∃ a n b, m.nodes = a ++ n :: b ∧ n.id = i ∧ pos = first b := by
  unfold next at h
  revert h
  generalize m.nodes = l
  induction l with
  | nil =>
    intro h
    cases h
  | cons c l ih =>
    intro h
    unfold nextIn at h
    split at h
    · rename_i hid
      exact ⟨[], c, l, rfl, hid, (Option.some.inj h).symm⟩
    · obtain ⟨a, n, b, rfl, hid, hpos⟩ := ih h
      exact ⟨c :: a, n, b, rfl, hid, hpos⟩

theorem exists_of_erase {i : ℕ} {m' : Multimap K V} (h : m.erase i = some m') :
    ∃ a n b, m.nodes = a ++ n :: b ∧ n.id = i ∧ m'.nodes = a ++ b ∧ m'.fresh = m.fresh := by
  have hsome : (m.get i).isSome := by
    by_contra hnone
    rw [erase, if_neg hnone] at h
    cases h
  obtain ⟨n, hn⟩ := Option.isSome_iff_exists.mp hsome
  obtain ⟨a, b, hsplit, rfl⟩ := exists_of_get hn
  obtain ⟨m₁, herase, hnodes, hfresh⟩ := erase_eq hsplit
  obtain rfl := Option.some.inj (herase.symm.trans h)
  exact ⟨a, n, b, hsplit, rfl, hnodes, hfresh⟩

theorem first_ne {c d : List (Node K V)} (h : m.nodes = a ++ n :: (c ++ d)) :
    first d ≠ some n.id := by
  intro hd
  obtain ⟨x, hx, hid⟩ := Option.map_eq_some_iff.mp hd
  obtain ⟨d, rfl⟩ := List.head?_eq_some_iff.mp hx
  have hsplit : m.nodes = (a ++ n :: c) ++ x :: d := by rw [h]; simp
  exact id_ne_of_mem hsplit (by simp) hid.symm

/-- The nodes with a key are between its two bounds. -/
theorem equal_range (m : Multimap K V) (k : K) : ∃ lower equal upper,
    m.nodes = lower ++ (equal ++ upper) ∧ (∀ n ∈ lower, n.key < k) ∧ (∀ n ∈ equal, n.key = k) ∧
      (∀ n ∈ upper, k < n.key) ∧ m.lowerBound k = first (equal ++ upper) ∧
      m.upperBound k = first upper := by
  have hlower : (m.nodes.dropWhile fun n => n.key ≤ k) =
      (m.nodes.dropWhile fun n => n.key < k).dropWhile fun n => n.key ≤ k := by
    have hsplit := List.takeWhile_append_dropWhile (p := fun n : Node K V => n.key < k)
      (l := m.nodes)
    have htake : ∀ n ∈ m.nodes.takeWhile (fun n => n.key < k), decide (n.key ≤ k) = true :=
      fun n hn => by simpa using (lt_of_mem_takeWhile_lt hn).le
    exact Eq.trans (by rw [hsplit]) (List.dropWhile_append_of_pos htake)
  refine ⟨m.nodes.takeWhile fun n => n.key < k,
    (m.nodes.dropWhile fun n => n.key < k).takeWhile fun n => n.key ≤ k,
    m.nodes.dropWhile fun n => n.key ≤ k, ?_, ?_, ?_, ?_, ?_, rfl⟩
  · rw [hlower, List.takeWhile_append_dropWhile, List.takeWhile_append_dropWhile]
  · exact fun n hn => lt_of_mem_takeWhile_lt hn
  · intro n hn
    exact le_antisymm (le_of_mem_takeWhile_le hn)
      (le_of_mem_dropWhile_lt m.sorted (List.takeWhile_subset _ hn))
  · exact fun n hn => lt_of_mem_dropWhile_le m.sorted hn
  · rw [hlower, List.takeWhile_append_dropWhile]
    rfl

end Iterators

end Multimap

end ServerKit.Lib
