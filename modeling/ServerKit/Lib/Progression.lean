import Mathlib.Data.List.Nodup
import Mathlib.Data.List.Perm.Subperm
import Mathlib.Data.Nat.ModEq

/-!
# Arithmetic progressions modulo `m`

A progression whose step is coprime to `m` goes through every residue once in `m` terms.
-/

namespace ServerKit.Lib

/-- The terms of the progression from `a` with the step `c`. -/
def progression (m a c j : ℕ) : ℕ := (a + j * c) % m

theorem progression_lt {m : ℕ} (hm : 0 < m) (a c j : ℕ) : progression m a c j < m :=
  Nat.mod_lt _ hm

/-- A term is the sum of the one before it and the step. -/
theorem progression_succ (m a c j : ℕ) :
    progression m a c (j + 1) = (progression m a c j + c) % m := by
  unfold progression
  rw [Nat.mod_add_mod, Nat.succ_mul, Nat.add_assoc]

/-- The progression without its first term. -/
theorem progression_tail (m a c j : ℕ) :
    progression m a c (j + 1) = progression m (a + c) c j := by
  unfold progression
  rw [Nat.succ_mul, Nat.add_comm (j * c) c, Nat.add_assoc]

theorem progression_injOn {m c : ℕ} (hc : Nat.Coprime m c) (a : ℕ) {i j : ℕ} (hi : i < m)
    (hj : j < m) (h : progression m a c i = progression m a c j) : i = j := by
  have hadd : i * c ≡ j * c [MOD m] := Nat.ModEq.add_left_cancel' a h
  have hmod : i ≡ j [MOD m] := Nat.ModEq.cancel_right_of_coprime hc hadd
  exact Nat.ModEq.eq_of_lt_of_lt hmod hi hj

/-- **A full period**: the first `m` terms are the residues, in some order. -/
theorem progression_perm {m c : ℕ} (hc : Nat.Coprime m c) (a : ℕ) :
    ((List.range m).map (progression m a c)).Perm (List.range m) := by
  have hnodup : ((List.range m).map (progression m a c)).Nodup := by
    apply List.Nodup.map_on
    · intro i hi j hj h
      exact progression_injOn hc a (List.mem_range.mp hi) (List.mem_range.mp hj) h
    · exact List.nodup_range
  have hsub : (List.range m).map (progression m a c) ⊆ List.range m := by
    intro x hx
    obtain ⟨j, hj, rfl⟩ := List.mem_map.mp hx
    have hm : 0 < m := Nat.zero_lt_of_lt (List.mem_range.mp hj)
    exact List.mem_range.mpr (progression_lt hm a c j)
  apply (List.subperm_of_subset hnodup hsub).perm_of_length_le
  rw [List.length_map]

end ServerKit.Lib
