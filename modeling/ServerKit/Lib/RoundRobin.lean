import Mathlib.Data.Int.CardIntervalMod

/-!
# Taking turns

`turns n c k` are the first `k` choices, among `n`, of an index that goes round from `c`. No choice
is made more than once more often than another, so neither is an entry of a list that is chosen
from in turn.
-/

namespace ServerKit.Lib

/-- The first `k` turns from the index `c`. -/
def turns (n c k : ℕ) : List ℕ := (List.range k).map fun j => (c + j) % n

@[simp] theorem turns_length (n c k : ℕ) : (turns n c k).length = k := by
  simp [turns]

theorem turns_succ (n c k : ℕ) : turns n c (k + 1) = turns n c k ++ [(c + k) % n] := by
  simp [turns, List.range_succ]

theorem turns_getElem? {n c k j : ℕ} (hj : j < k) : (turns n c k)[j]? = some ((c + j) % n) := by
  simp [turns, hj]

theorem turns_lt {n c k : ℕ} (hn : 0 < n) {v : ℕ} (hv : v ∈ turns n c k) : v < n := by
  obtain ⟨j, -, rfl⟩ := List.mem_map.mp hv
  exact Nat.mod_lt _ hn

/-- A turn comes to `v` when the number of turns before it does. -/
theorem turn_eq_iff {n c v j : ℕ} (hv : v < n) :
    (c + j) % n = v ↔ j ≡ v + (n - c % n) [MOD n] := by
  have hc : c % n < n := Nat.mod_lt _ (by omega)
  have hcancel : (c + (v + (n - c % n))) ≡ v [MOD n] := by
    have hsum : c + (v + (n - c % n)) = v + n * (c / n + 1) := by
      have hdm := Nat.div_add_mod c n
      rw [Nat.mul_add, Nat.mul_one]
      omega
    rw [hsum]
    simp [Nat.ModEq]
  constructor
  · intro h
    have hmod : c + j ≡ c + (v + (n - c % n)) [MOD n] := by
      refine Nat.ModEq.trans ?_ hcancel.symm
      rw [Nat.ModEq, h, Nat.mod_eq_of_lt hv]
    exact Nat.ModEq.add_left_cancel' c hmod
  · intro h
    have hmod : c + j ≡ v [MOD n] := (h.add_left c).trans hcancel
    rw [Nat.ModEq, Nat.mod_eq_of_lt hv] at hmod
    exact hmod

/-- How often a choice is made, as a count of turns. -/
theorem count_turns_eq {n c v k : ℕ} (hv : v < n) :
    (turns n c k).count v = k.count (· ≡ v + (n - c % n) [MOD n]) := by
  induction k with
  | zero => simp [turns]
  | succ k ih =>
    rw [turns_succ, List.count_append, ih, Nat.count_succ, List.count_singleton]
    simp only [beq_iff_eq, turn_eq_iff hv]

/-- **Every choice is made as often as any other**, up to once. -/
theorem count_turns {n c v : ℕ} (hv : v < n) (k : ℕ) :
    k / n ≤ (turns n c k).count v ∧ (turns n c k).count v ≤ k / n + 1 := by
  rw [count_turns_eq hv, Nat.count_modEq_card k (by omega : 0 < n)]
  split <;> omega

section Chosen

variable {α : Type*} {ws xs ys : List α} {c : ℕ}

/-- `xs` have been chosen from `ws` by an index that goes round from `c`. -/
def GoesRound (ws : List α) (c : ℕ) (xs : List α) : Prop :=
  xs.map some = (turns ws.length c xs.length).map (ws[·]?)

theorem GoesRound.nil : GoesRound ws c [] := rfl

theorem GoesRound.snoc {w : α} (h : GoesRound ws c xs)
    (hw : ws[(c + xs.length) % ws.length]? = some w) : GoesRound ws c (xs ++ [w]) := by
  rw [GoesRound, List.length_append, List.length_singleton, turns_succ, List.map_append,
    List.map_append, ← h, List.map_singleton, List.map_singleton, hw]

/-- Who is chosen at the turn `k`. -/
theorem GoesRound.getElem?_eq (h : GoesRound ws c xs) {k : ℕ} {w : α} (hk : xs[k]? = some w) :
    ws[(c + k) % ws.length]? = some w := by
  have hlt := (List.getElem?_eq_some_iff.mp hk).1
  have hget := congrArg (·[k]?) h
  simp only [List.getElem?_map, hk, turns_getElem? hlt, Option.map_some] at hget
  exact (Option.some.inj hget).symm

theorem GoesRound.of_isPrefix (h : GoesRound ws c ys) (hpre : xs <+: ys) : GoesRound ws c xs := by
  refine List.ext_getElem? fun k => ?_
  by_cases hk : k < xs.length
  · have hxs : xs[k]? = some xs[k] := List.getElem?_eq_getElem hk
    have hys : ys[k]? = some xs[k] := by
      obtain ⟨zs, rfl⟩ := hpre
      rw [List.getElem?_append_left hk, hxs]
    rw [List.getElem?_map, List.getElem?_map, turns_getElem? hk, hxs, Option.map_some,
      Option.map_some, h.getElem?_eq hys]
  · rw [List.getElem?_eq_none (by simpa using hk), List.getElem?_eq_none (by simpa using hk)]

variable [DecidableEq α]

/-- An entry is chosen as often as its place comes up. -/
theorem GoesRound.count_eq (h : GoesRound ws c xs) (hnodup : ws.Nodup) {i : ℕ}
    (hi : i < ws.length) : xs.count ws[i] = (turns ws.length c xs.length).count i := by
  have hmap := congrArg (List.count (some ws[i])) h
  rw [List.count_map_of_injective _ _ (Option.some_injective _), ← List.getElem?_eq_getElem hi,
    List.count_eq_countP (a := ws[i]?), List.countP_map] at hmap
  rw [hmap, List.count_eq_countP]
  refine List.countP_congr fun j hj => ?_
  have hjlt : j < ws.length := turns_lt (by omega) hj
  simp only [Function.comp, beq_iff_eq, List.getElem?_eq_getElem hi, List.getElem?_eq_getElem hjlt,
    Option.some.injEq]
  exact hnodup.getElem_inj_iff

/-- **Nobody is chosen more than once more often than another.** -/
theorem GoesRound.count_le (h : GoesRound ws c xs) (hnodup : ws.Nodup) {v w : α} (hv : v ∈ ws)
    (hw : w ∈ ws) : xs.count v ≤ xs.count w + 1 := by
  obtain ⟨i, hi, rfl⟩ := List.getElem_of_mem hv
  obtain ⟨j, hj, rfl⟩ := List.getElem_of_mem hw
  rw [h.count_eq hnodup hi, h.count_eq hnodup hj]
  have hle := (count_turns (c := c) hi xs.length).2
  have hge := (count_turns (c := c) hj xs.length).1
  omega

end Chosen

end ServerKit.Lib
