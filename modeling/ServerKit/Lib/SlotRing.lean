import ServerKit.Lib.Lts
import Mathlib.Logic.Function.Basic
import Mathlib.Data.Set.Basic
import Mathlib.Data.Nat.ModEq

/-!
# A ring of slots

One writer puts records into `N` slots in turn, cell by cell. A reader that has been told the slot
of a record finds the record there, whole, as long as fewer than `N` records have been begun since;
a cell it reads later than that is of a later record, never of an earlier one.
-/

namespace ServerKit.Lib

universe u v

/-- `records` are the records begun so far; the cells of the last one that are in `pending` have
still to be stored. -/
structure SlotRing (C : Type u) (V : C → Type v) where
  slots : ℕ → (c : C) → V c
  records : List ((c : C) → V c)
  pending : Set C

/-- The slot of the record `u`, when the first goes to the slot `c₀`. -/
def slotOf (N c₀ u : ℕ) : ℕ := (c₀ + u) % N

/-- A slot is used again after `N` records. -/
theorem slotOf_inj {N c₀ u v : ℕ} (hle : u ≤ v) (hlt : v < u + N)
    (h : slotOf N c₀ u = slotOf N c₀ v) : u = v := by
  obtain ⟨d, rfl⟩ := Nat.exists_eq_add_of_le hle
  have hmod : (c₀ + u + 0) % N = (c₀ + u + d) % N := by
    rw [Nat.add_zero, Nat.add_assoc]
    exact h
  have hd : 0 % N = d % N := Nat.ModEq.add_left_cancel' (c₀ + u) hmod
  rw [Nat.zero_mod, Nat.mod_eq_of_lt (by omega)] at hd
  omega

namespace SlotRing

variable {C : Type u} {V : C → Type v} {N c₀ : ℕ} {s s' : SlotRing C V}

/-- The cell `c` of the record `u` has been stored. -/
def Stored (s : SlotRing C V) (u : ℕ) (c : C) : Prop :=
  u < s.records.length ∧ (u + 1 = s.records.length → c ∉ s.pending)

/-- **The invariant**: the cell of a record that has been stored holds its value, or, once `N`
records have been begun since, that of a later record. -/
def Current (N c₀ : ℕ) (s : SlotRing C V) : Prop :=
  ∀ u c, s.Stored u c → ∃ v r, u ≤ v ∧ s.records[v]? = some r ∧ s.slots (slotOf N c₀ u) c = r c ∧
    (s.records.length ≤ u + N → v = u)

/-- The next record is begun. -/
theorem Current.begin (h : s.Current N c₀) (hdone : s.pending = ∅) (r : (c : C) → V c)
    (hs : s' = { s with records := s.records ++ [r], pending := Set.univ }) : s'.Current N c₀ := by
  subst hs
  rintro u c ⟨hlt, hpending⟩
  rw [List.length_append, List.length_singleton] at hlt hpending
  have hold : u < s.records.length := by
    rcases Nat.lt_or_eq_of_le (Nat.lt_succ_iff.mp hlt) with hlt | rfl
    · exact hlt
    · exact absurd (Set.mem_univ c) (hpending rfl)
  obtain ⟨v, r', hv, hr', hcell, hwindow⟩ := h u c ⟨hold, by simp [hdone]⟩
  refine ⟨v, r', hv, ?_, hcell, fun hle => hwindow ?_⟩
  · exact getElem?_snoc.mpr (.inl hr')
  · rw [List.length_append, List.length_singleton] at hle
    omega

/-- A cell of the last record is stored. -/
theorem Current.store [DecidableEq C] (h : s.Current N c₀) {n : ℕ} {r : (c : C) → V c}
    (hlen : s.records.length = n + 1) (hr : s.records[n]? = some r) (c : C)
    (hs : s' = { s with
      slots := Function.update s.slots (slotOf N c₀ n)
        (Function.update (s.slots (slotOf N c₀ n)) c (r c))
      pending := s.pending \ {c} }) : s'.Current N c₀ := by
  subst hs
  rintro u c' ⟨hlt, hpending⟩
  have hlt : u < s.records.length := hlt
  by_cases hslot : slotOf N c₀ u = slotOf N c₀ n ∧ c' = c
  · -- the cell that has been stored
    obtain ⟨hslot, rfl⟩ := hslot
    refine ⟨n, r, by omega, hr, ?_, fun hle => ?_⟩
    · change Function.update s.slots _ _ (slotOf N c₀ u) c' = r c'
      rw [hslot, Function.update_self, Function.update_self]
    · have hle : s.records.length ≤ u + N := hle
      exact (slotOf_inj (by omega) (by omega) hslot).symm
  · have hsame : Function.update s.slots (slotOf N c₀ n)
        (Function.update (s.slots (slotOf N c₀ n)) c (r c)) (slotOf N c₀ u) c' =
          s.slots (slotOf N c₀ u) c' := by
      by_cases hu : slotOf N c₀ u = slotOf N c₀ n
      · have hc : c' ≠ c := fun hc => hslot ⟨hu, hc⟩
        rw [hu, Function.update_self, Function.update_of_ne hc]
      · rw [Function.update_of_ne hu]
    have hstored : s.Stored u c' := by
      refine ⟨hlt, fun hlast hmem => hpending hlast ⟨hmem, ?_⟩⟩
      rintro rfl
      have hun : u = n := by omega
      exact hslot ⟨by rw [hun], rfl⟩
    obtain ⟨v, r', hv, hr', hcell, hwindow⟩ := h u c' hstored
    exact ⟨v, r', hv, hr', hsame.trans hcell, hwindow⟩

/-- **Reading**: a record that is complete is found whole in its slot while fewer than `N` records
have been begun since. -/
theorem Current.whole (h : s.Current N c₀) {u : ℕ} (hlt : u < s.records.length)
    (hdone : u + 1 = s.records.length → s.pending = ∅) (hle : s.records.length ≤ u + N) :
    s.records[u]? = some (s.slots (slotOf N c₀ u)) := by
  rw [List.getElem?_eq_getElem hlt]
  refine congrArg some (funext fun c => ?_)
  obtain ⟨v, r, -, hr, hcell, hwindow⟩ := h u c ⟨hlt, fun hlast => by simp [hdone hlast]⟩
  obtain rfl := hwindow hle
  rw [List.getElem?_eq_getElem hlt, Option.some.injEq] at hr
  rw [hcell, hr]

end SlotRing

end ServerKit.Lib
