import Mathlib.Data.Nat.Notation
import Mathlib.Order.Nat

/-!
# Vectors in memory

The elements of a `std::vector` stand in one block of memory, behind the last of them up to the
capacity there is room for more. A vector that outgrows its block moves into a larger one: pointers
into the old block dangle, and what stood behind the last element is lost.
-/

namespace ServerKit.Lib

universe u

/-- How large a block an implementation allocates. -/
structure VectorAlloc where
  /-- For `reserve(n)`. -/
  reserve : ℕ → ℕ
  /-- For `resize(n)` of a vector of some size. -/
  resize : ℕ → ℕ → ℕ
  le_reserve : ∀ n, n ≤ reserve n
  le_resize : ∀ size n, n ≤ resize size n

/-- Exactly what is asked for, but at least twice the size when a vector grows. -/
def VectorAlloc.doubling : VectorAlloc where
  reserve n := n
  resize size n := max (2 * size) n
  le_reserve := Nat.le_refl
  le_resize _ _ := Nat.le_max_right ..

/-- A vector. Its blocks are numbered in the order in which they are allocated, and all but the last
have been freed; `data` is what the last one contains, `none` where nothing has been written. -/
structure StdVector (α : Type u) where
  block : ℕ
  size : ℕ
  capacity : ℕ
  data : ℕ → Option α
  size_le : size ≤ capacity

/-- A pointer to a place in a block. -/
structure VectorPtr where
  block : ℕ
  index : ℕ
deriving DecidableEq, Repr

namespace StdVector

variable {α : Type u}

def empty : StdVector α where
  block := 0
  size := 0
  capacity := 0
  data := fun _ => none
  size_le := Nat.le_refl 0

/-- `reserve(n)`. -/
def reserve (v : StdVector α) (g : VectorAlloc) (n : ℕ) : StdVector α :=
  if h : v.capacity < n then
    { block := v.block + 1
      size := v.size
      capacity := g.reserve n
      data := fun j => if j < v.size then v.data j else none
      size_le := v.size_le.trans (h.le.trans (g.le_reserve n)) }
  else v

/-- `resize(n)`; new elements are `zero`. -/
def resize (v : StdVector α) (g : VectorAlloc) (zero : α) (n : ℕ) : StdVector α :=
  if h : n ≤ v.capacity then
    { v with
      size := n
      data := fun j => if v.size ≤ j ∧ j < n then some zero else v.data j
      size_le := h }
  else
    { block := v.block + 1
      size := n
      capacity := g.resize v.size n
      data := fun j => if j < v.size then v.data j else if j < n then some zero else none
      size_le := g.le_resize v.size n }

/-- `&v[j]`, which is not checked against the size. -/
def pointer (v : StdVector α) (j : ℕ) : VectorPtr := ⟨v.block, j⟩

/-- `*p`, if `p` points into the block that the vector is in. -/
def deref (v : StdVector α) (p : VectorPtr) : Option α :=
  if p.block = v.block ∧ p.index < v.capacity then v.data p.index else none

/-- Elements are written from the start of the block on, whatever the size. -/
def store (v : StdVector α) (l : List α) : StdVector α :=
  { v with data := fun j => l[j]?.or (v.data j) }

@[simp] theorem pointer_block (v : StdVector α) (j : ℕ) : (v.pointer j).block = v.block := rfl
@[simp] theorem pointer_index (v : StdVector α) (j : ℕ) : (v.pointer j).index = j := rfl
@[simp] theorem reserve_size (v : StdVector α) (g : VectorAlloc) (n : ℕ) :
    (v.reserve g n).size = v.size := by
  unfold reserve
  split <;> rfl

@[simp] theorem resize_size (v : StdVector α) (g : VectorAlloc) (zero : α) (n : ℕ) :
    (v.resize g zero n).size = n := by
  unfold resize
  split <;> rfl

theorem le_capacity_reserve (v : StdVector α) (g : VectorAlloc) (n : ℕ) :
    n ≤ (v.reserve g n).capacity := by
  unfold reserve
  split
  · exact g.le_reserve n
  · exact Nat.le_of_not_lt ‹_›

/-- What stands in the block that the vector is in. -/
theorem deref_pointer {v v' : StdVector α} {j : ℕ} (hblock : v.block = v'.block)
    (hj : j < v'.capacity) : v'.deref (v.pointer j) = v'.data j := by
  unfold deref
  rw [pointer_block, pointer_index, if_pos ⟨hblock, hj⟩]

theorem deref_eq_some {v : StdVector α} {p : VectorPtr} {a : α} :
    v.deref p = some a ↔ (p.block = v.block ∧ p.index < v.capacity) ∧ v.data p.index = some a := by
  unfold deref
  split
  · exact ⟨fun h => ⟨‹_›, h⟩, fun h => h.2⟩
  · exact ⟨nofun, fun h => absurd h.1 ‹_›⟩

theorem store_data {l : List α} {j : ℕ} {a : α} (h : l[j]? = some a) (v : StdVector α) :
    (v.store l).data j = some a := by
  unfold store
  simp only [h, Option.some_or]

/-! ## Growth -/

/-- `v'` has become of `v` by one or more calls of `resize` with greater and greater sizes. Its
first elements are those of `v`, the others are new: also where something stood behind the last
element of `v`. It stands where `v` does if that has room for it. -/
structure Grows (zero : α) (v v' : StdVector α) : Prop where
  size_lt : v.size < v'.size
  kept : ∀ j < v.size, v'.data j = v.data j
  lost : ∀ j, v.size ≤ j → j < v'.size → v'.data j = some zero
  inPlace : v'.size ≤ v.capacity → v'.block = v.block ∧ v'.capacity = v.capacity
  moved : v.capacity < v'.size → v.block < v'.block

namespace Grows

variable {zero : α} {v v' v'' : StdVector α} {j : ℕ}

theorem resize (v : StdVector α) (g : VectorAlloc) (zero : α) {n : ℕ} (h : v.size < n) :
    Grows zero v (v.resize g zero n) := by
  unfold StdVector.resize
  by_cases hroom : n ≤ v.capacity
  · rw [dif_pos hroom]
    refine ⟨h, ?_, ?_, fun _ => ⟨rfl, rfl⟩, fun hlt => absurd hroom (Nat.not_le_of_lt hlt)⟩
    · intro j hj
      exact if_neg fun hnew => absurd hnew.1 (Nat.not_le_of_lt hj)
    · intro j hsize hj
      exact if_pos ⟨hsize, hj⟩
  · rw [dif_neg hroom]
    refine ⟨h, ?_, ?_, fun hle => absurd hle hroom, fun _ => Nat.lt_succ_self _⟩
    · intro j hj
      exact if_pos hj
    · intro j hsize hj
      change (if j < v.size then v.data j else if j < n then some zero else none) = some zero
      rw [if_neg (Nat.not_lt_of_le hsize), if_pos hj]

theorem block_le (h : Grows zero v v') : v.block ≤ v'.block := by
  rcases Nat.lt_or_ge v.capacity v'.size with hlt | hle
  · exact (h.moved hlt).le
  · exact (h.inPlace hle).1.ge

theorem trans (h : Grows zero v v') (h' : Grows zero v' v'') : Grows zero v v'' := by
  refine ⟨h.size_lt.trans h'.size_lt, ?_, ?_, ?_, ?_⟩
  · intro j hj
    rw [h'.kept j (hj.trans h.size_lt), h.kept j hj]
  · intro j hsize hj
    rcases Nat.lt_or_ge j v'.size with hlt | hle
    · rw [h'.kept j hlt, h.lost j hsize hlt]
    · exact h'.lost j hle hj
  · intro hroom
    obtain ⟨hblock, hcapacity⟩ := h.inPlace (h'.size_lt.le.trans hroom)
    obtain ⟨hblock', hcapacity'⟩ := h'.inPlace (hcapacity ▸ hroom)
    exact ⟨hblock'.trans hblock, hcapacity'.trans hcapacity⟩
  · intro hroom
    rcases Nat.lt_or_ge v.capacity v'.size with hlt | hle
    · exact (h.moved hlt).trans_le h'.block_le
    · obtain ⟨hblock, hcapacity⟩ := h.inPlace hle
      exact hblock ▸ h'.moved (hcapacity ▸ hroom)

/-- What was lost stays lost. -/
theorem lost_of_lost (h : Grows zero v v') (hj : j < v.size) (hlost : v.data j = some zero) :
    j < v'.size ∧ v'.data j = some zero :=
  ⟨hj.trans h.size_lt, (h.kept j hj).trans hlost⟩

/-- A pointer into the block that the vector has left. -/
theorem deref_moved (h : Grows zero v v') (hroom : v.capacity < v'.size) {p : VectorPtr}
    (hp : p.block ≤ v.block) : v'.deref p = none := by
  unfold deref
  rw [if_neg]
  rintro ⟨hblock, -⟩
  exact absurd (hblock ▸ hp) (Nat.not_le_of_lt (h.moved hroom))

/-- A pointer into the block that the vector has stayed in. -/
theorem deref_inPlace (h : Grows zero v v') (hroom : v'.size ≤ v.capacity) {p : VectorPtr}
    (hp : p.block = v.block) (hj : p.index < v'.size) :
    v'.deref p = if p.index < v.size then v.data p.index else some zero := by
  obtain ⟨hblock, hcapacity⟩ := h.inPlace hroom
  unfold deref
  rw [if_pos ⟨hp.trans hblock.symm, hj.trans_le v'.size_le⟩]
  split
  · exact h.kept p.index ‹_›
  · exact h.lost p.index (Nat.le_of_not_lt ‹_›) hj

end Grows

end StdVector

end ServerKit.Lib
