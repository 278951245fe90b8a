import Mathlib.Data.Nat.Prime.Basic
import ServerKit.Lib.Progression
import ServerKit.Util.GlobalId

/-!
# The batches of `NewID`

Inside a batch the low bits of the ids are an arithmetic progression modulo 4096 whose step is odd,
so 4096 calls go through all of them.
-/

namespace ServerKit

open Lib

namespace IdGenerator

/-! ## Masks -/

theorem and_batchMask {w : ℕ} (v m : BitVec w) (hm : m.toNat = 4095) :
    (v &&& m).toNat = v.toNat % 4096 := by
  rw [BitVec.toNat_and, hm]
  exact Nat.and_two_pow_sub_one_eq_mod v.toNat 12

/-- `~kBatchMask` is a negative `int`, whose extension keeps the upper 52 bits. -/
theorem and_not_batchMask (v : BitVec 64) :
    (v &&& (~~~ kBatchMask).signExtend 64).toNat = v.toNat / 4096 * 4096 := by
  have hmask : (~~~ kBatchMask).signExtend 64 = BitVec.allOnes 64 <<< 12 := by decide
  have hv := v.isLt
  rw [hmask, ← BitVec.shiftLeft_ushiftRight, BitVec.toNat_shiftLeft, BitVec.toNat_ushiftRight,
    Nat.shiftRight_eq_div_pow, Nat.shiftLeft_eq]
  omega

theorem low_toNat (v : BitVec 64) :
    ((v &&& kBatchMask.signExtend 64).truncate 32).toNat = v.toNat % 4096 := by
  rw [BitVec.truncate_eq_setWidth, BitVec.toNat_setWidth, and_batchMask v _ rfl]
  omega

/-- The two halves of an id do not overlap. -/
theorem or_low_toNat {u : BitVec 64} {l : BitVec 32} (hu : u.toNat % 4096 = 0)
    (hl : l.toNat < 4096) : (u ||| l.signExtend 64).toNat = u.toNat + l.toNat := by
  have hmsb : l.msb = false := by
    rw [BitVec.msb_eq_decide, decide_eq_false_iff_not]
    omega
  have hext : (l.signExtend 64).toNat = l.toNat := by
    rw [BitVec.signExtend_eq_setWidth_of_msb_false hmsb, BitVec.toNat_setWidth]
    omega
  have hor := Nat.two_pow_add_eq_or_of_lt (i := 12) hl (u.toNat / 4096)
  have hdiv : 2 ^ 12 * (u.toNat / 4096) = u.toNat := by omega
  rw [BitVec.toNat_or, hext, ← hdiv, hor]

/-! ## Sums -/

theorem addInt_eq {a b : BitVec 32} (ha : a.toNat < 4096) (hb : b.toNat < 4096) :
    ∃ d, addInt a b = some d ∧ d.toNat = a.toNat + b.toNat := by
  have hover : a.saddOverflow b = false := by
    have ha' : a.toInt = a.toNat := BitVec.toInt_eq_toNat_of_lt (by omega)
    have hb' : b.toInt = b.toNat := BitVec.toInt_eq_toNat_of_lt (by omega)
    rw [BitVec.saddOverflow, ha', hb', Bool.or_eq_false_iff, decide_eq_false_iff_not,
      decide_eq_false_iff_not]
    omega
  refine ⟨a + b, ?_, ?_⟩
  · unfold addInt
    rw [hover]
    rfl
  · rw [BitVec.toNat_add]
    omega

theorem subInt_one {a : BitVec 32} (h0 : 0 < a.toNat) (h : a.toNat ≤ 4096) :
    ∃ d, subInt a 1 = some d ∧ d.toNat = a.toNat - 1 := by
  have hover : a.ssubOverflow 1 = false := by
    have ha : a.toInt = a.toNat := BitVec.toInt_eq_toNat_of_lt (by omega)
    have h1 : (1 : BitVec 32).toInt = 1 := by decide
    rw [BitVec.ssubOverflow, ha, h1, Bool.or_eq_false_iff, decide_eq_false_iff_not,
      decide_eq_false_iff_not]
    omega
  refine ⟨a - 1, ?_, ?_⟩
  · unfold subInt
    rw [hover]
    rfl
  · rw [BitVec.toNat_sub]
    change (2 ^ 32 - 1 + a.toNat) % 2 ^ 32 = _
    omega

/-! ## One call -/

/-- The step of the batch whose second random value is `r`. -/
def stepOf (r : BitVec 64) : ℕ := r.toNat % 4096 ||| 1

theorem stepOf_lt (r : BitVec 64) : stepOf r < 4096 :=
  Nat.or_lt_two_pow (n := 12) (Nat.mod_lt _ (by decide)) (by decide)

theorem stepOf_odd (r : BitVec 64) : Nat.Coprime 4096 (stepOf r) := by
  have hodd : stepOf r % 2 = 1 := by
    unfold stepOf
    rw [Nat.or_mod_two_eq_one]
    exact .inr rfl
  exact Nat.Coprime.pow_left 12 (Nat.coprime_two_left.mpr (Nat.odd_iff.mpr hodd))

/-- The `j`-th id of the batch that `v` and `r` have opened. -/
def batchId (v r : BitVec 64) (j : ℕ) : BitVec 64 :=
  BitVec.ofNat 64
    (v.toNat / 4096 * 4096 + progression 4096 (v.toNat % 4096) (stepOf r) (j + 1))

theorem batchId_toNat (v r : BitVec 64) (j : ℕ) : (batchId v r j).toNat =
    v.toNat / 4096 * 4096 + progression 4096 (v.toNat % 4096) (stepOf r) (j + 1) := by
  have hv := v.isLt
  have hlow := progression_lt (m := 4096) (by decide) (v.toNat % 4096) (stepOf r) (j + 1)
  rw [batchId, BitVec.toNat_ofNat]
  omega

/-- The ids of a batch are the values with the upper bits of `v`, in some order. -/
theorem batchIds_perm (v r : BitVec 64) : ((List.range 4096).map (batchId v r)).Perm
    ((List.range 4096).map fun low => BitVec.ofNat 64 (v.toNat / 4096 * 4096 + low)) := by
  have hlow := (progression_perm (stepOf_odd r) (v.toNat % 4096 + stepOf r)).map
    fun low => BitVec.ofNat 64 (v.toNat / 4096 * 4096 + low)
  rw [List.map_map] at hlow
  refine .trans (.of_eq (List.map_congr_left fun j _ => ?_)) hlow
  rw [batchId, progression_tail]
  rfl

theorem batchIds_nodup (v r : BitVec 64) : ((List.range 4096).map (batchId v r)).Nodup := by
  have hv := v.isLt
  rw [(batchIds_perm v r).nodup_iff]
  apply List.Nodup.map_on
  · intro i hi j hj h
    have hi' := List.mem_range.mp hi
    have hj' := List.mem_range.mp hj
    have heq := congrArg BitVec.toNat h
    rw [BitVec.toNat_ofNat, BitVec.toNat_ofNat] at heq
    omega
  · exact List.nodup_range

theorem mem_batchIds (v r id : BitVec 64) :
    id ∈ (List.range 4096).map (batchId v r) ↔ id >>> 12 = v >>> 12 := by
  have hv := v.isLt
  have hid := id.isLt
  rw [(batchIds_perm v r).mem_iff, List.mem_map, ← BitVec.toNat_inj, BitVec.toNat_ushiftRight,
    BitVec.toNat_ushiftRight, Nat.shiftRight_eq_div_pow, Nat.shiftRight_eq_div_pow]
  constructor
  · rintro ⟨low, hlow, rfl⟩
    have hlt := List.mem_range.mp hlow
    rw [BitVec.toNat_ofNat]
    omega
  · intro h
    refine ⟨id.toNat % 4096, List.mem_range.mpr (Nat.mod_lt _ (by decide)), ?_⟩
    apply BitVec.eq_of_toNat_eq
    rw [BitVec.toNat_ofNat]
    omega

/-- The generator has given out `j` ids of the batch `b`. -/
structure InBatch (random : ℕ → BitVec 64) (b j : ℕ) (g : IdGenerator) : Prop where
  upper : g.upperBits.toNat = (random (2 * b)).toNat / 4096 * 4096
  lower : g.lowerBits.toNat =
    progression 4096 ((random (2 * b)).toNat % 4096) (stepOf (random (2 * b + 1))) j
  increment : g.increment.toNat = stepOf (random (2 * b + 1))
  remaining : g.remaining.toNat + j = 4096
  draws : g.draws = 2 * b + 2

variable {random : ℕ → BitVec 64} {b j : ℕ} {g : IdGenerator}

theorem reset_inBatch (h : g.draws = 2 * b) : InBatch random b 0 (g.reset random) := by
  constructor
  · change (random g.draws &&& (~~~ kBatchMask).signExtend 64).toNat = _
    rw [and_not_batchMask, h]
  · change ((random g.draws &&& kBatchMask.signExtend 64).truncate 32).toNat = _
    rw [low_toNat, h, progression, Nat.zero_mul, Nat.add_zero, Nat.mod_mod]
  · change (((random (g.draws + 1) &&& kBatchMask.signExtend 64).truncate 32) ||| 1).toNat = _
    rw [BitVec.toNat_or, low_toNat, h]
    rfl
  · rfl
  · change g.draws + 1 + 1 = _
    rw [h]

theorem InBatch.newID (h : InBatch random b j g) (hj : j < 4096) :
    ∃ g', g.newID random = some (batchId (random (2 * b)) (random (2 * b + 1)) j, g') ∧
      InBatch random b (j + 1) g' := by
  have hlow : g.lowerBits.toNat < 4096 := by
    rw [h.lower]
    exact progression_lt (by decide) _ _ _
  have hinc : g.increment.toNat < 4096 := by
    rw [h.increment]
    exact stepOf_lt _
  have hrem := h.remaining
  have hne : g.remaining ≠ 0 := by
    intro h0
    rw [h0] at hrem
    change 0 + j = 4096 at hrem
    omega
  obtain ⟨d, hd, hdn⟩ := subInt_one (a := g.remaining) (by omega) (by omega)
  obtain ⟨s, hs, hsn⟩ := addInt_eq hlow hinc
  have hnext : (s &&& kBatchMask).toNat =
      progression 4096 ((random (2 * b)).toNat % 4096) (stepOf (random (2 * b + 1))) (j + 1) := by
    rw [and_batchMask s _ rfl, progression_succ, hsn, h.lower, h.increment]
  refine ⟨{ g with remaining := d, lowerBits := s &&& kBatchMask }, ?_,
    ⟨h.upper, hnext, h.increment, ?_, h.draws⟩⟩
  · have hid : g.upperBits ||| (s &&& kBatchMask).signExtend 64 =
        batchId (random (2 * b)) (random (2 * b + 1)) j := by
      apply BitVec.eq_of_toNat_eq
      rw [batchId_toNat, or_low_toNat, h.upper, hnext]
      · rw [h.upper, Nat.mul_mod_left]
      · rw [hnext]
        exact progression_lt (by decide) _ _ _
    unfold IdGenerator.newID
    rw [if_neg hne, ← hid]
    simp only [hd, hs, Option.bind_eq_bind, Option.bind_some]
    rfl
  · change d.toNat + (j + 1) = 4096
    omega

/-- The first call of a batch resets. -/
theorem newID_of_remaining_eq_zero (h : g.remaining = 0) :
    g.newID random = (g.reset random).newID random := by
  have hne : (g.reset random).remaining ≠ 0 := by
    change kNumIDsInBatch ≠ 0
    decide
  unfold IdGenerator.newID
  rw [if_pos h, if_neg hne]

/-! ## The batches of a run -/

/-- The generator has been called `n` times. -/
structure Called (random : ℕ → BitVec 64) (n : ℕ) (g : IdGenerator) : Prop where
  draws : g.draws = 2 * ((n + 4095) / 4096)
  empty_iff : g.remaining = 0 ↔ n % 4096 = 0
  inBatch : n % 4096 ≠ 0 → InBatch random (n / 4096) (n % 4096) g

theorem called_zero : Called random 0 zero :=
  ⟨rfl, ⟨fun _ => rfl, fun _ => rfl⟩, fun h => absurd rfl h⟩

/-- The `i`-th id of a run. -/
def runId (random : ℕ → BitVec 64) (i : ℕ) : BitVec 64 :=
  batchId (random (2 * (i / 4096))) (random (2 * (i / 4096) + 1)) (i % 4096)

/-- Before the id is computed the generator stands in the batch of its call. -/
theorem Called.newID_inBatch {n : ℕ} (h : Called random n g) :
    ∃ g₀, g.newID random = g₀.newID random ∧ InBatch random (n / 4096) (n % 4096) g₀ := by
  by_cases hn : n % 4096 = 0
  · refine ⟨g.reset random, newID_of_remaining_eq_zero (h.empty_iff.mpr hn), ?_⟩
    rw [hn]
    apply reset_inBatch
    rw [h.draws]
    omega
  · exact ⟨g, rfl, h.inBatch hn⟩

theorem Called.step {n : ℕ} (h : Called random n g) :
    ∃ g', g.newID random = some (runId random n, g') ∧ Called random (n + 1) g' := by
  obtain ⟨g₀, heq, hin⟩ := h.newID_inBatch
  obtain ⟨g', hid, hin'⟩ := hin.newID (Nat.mod_lt _ (by decide))
  refine ⟨g', heq.trans hid, ⟨?_, ?_, ?_⟩⟩
  · rw [hin'.draws]
    omega
  · have hrem := hin'.remaining
    rw [← BitVec.toNat_inj]
    change g'.remaining.toNat = 0 ↔ _
    omega
  · intro hn
    have hdiv : (n + 1) / 4096 = n / 4096 := by omega
    have hmod : (n + 1) % 4096 = n % 4096 + 1 := by omega
    rw [hdiv, hmod]
    exact hin'

/-- Every run returns, with the ids of its batches. -/
theorem newIDs_eq (random : ℕ → BitVec 64) (n : ℕ) :
    ∃ g, newIDs random n = some ((List.range n).map (runId random), g) ∧ Called random n g := by
  induction n with
  | zero => exact ⟨zero, rfl, called_zero⟩
  | succ n ih =>
    obtain ⟨g, hids, hg⟩ := ih
    obtain ⟨g', hid, hg'⟩ := hg.step
    refine ⟨g', ?_, hg'⟩
    rw [newIDs, hids, List.range_succ, List.map_append]
    simp only [hid, Option.bind_eq_bind, Option.bind_some]
    rfl

/-- The ids between two resets. -/
def batch (b : ℕ) (ids : List (BitVec 64)) : List (BitVec 64) := (ids.drop (4096 * b)).take 4096

theorem batch_eq {n : ℕ} (h : 4096 * (b + 1) ≤ n) :
    batch b ((List.range n).map (runId random)) =
      (List.range 4096).map (batchId (random (2 * b)) (random (2 * b + 1))) := by
  unfold batch
  apply List.ext_getElem
  · simp only [List.length_take, List.length_drop, List.length_map, List.length_range]
    omega
  · intro i _ hi
    rw [List.length_map, List.length_range] at hi
    have hdiv : (4096 * b + i) / 4096 = b := by omega
    have hmod : (4096 * b + i) % 4096 = i := by omega
    simp only [List.getElem_take, List.getElem_drop, List.getElem_map, List.getElem_range, runId,
      hdiv, hmod]

end IdGenerator

open IdGenerator

/-- **Batches of ids**: a run of `NewID` calls never overflows, `reset` runs in every 4096th call
from the first one on, and the 4096 ids between two resets are pairwise distinct, the values with
the upper 52 bits that the first of them has drawn. -/
theorem newIDs_batches (random : ℕ → BitVec 64) (n : ℕ) :
    ∃ ids g, newIDs random n = some (ids, g) ∧ ids.length = n ∧
      (∃ id g', g.newID random = some (id, g') ∧
        (g'.draws ≠ g.draws ↔ n % 4096 = 0) ∧ g.draws = 2 * ((n + 4095) / 4096)) ∧
      ∀ b, 4096 * (b + 1) ≤ n →
        (batch b ids).length = 4096 ∧ (batch b ids).Nodup ∧
          ∀ id, id ∈ batch b ids ↔ id >>> 12 = random (2 * b) >>> 12 := by
  obtain ⟨g, hids, hg⟩ := newIDs_eq random n
  obtain ⟨g', hid, hg'⟩ := hg.step
  refine ⟨_, g, hids, ?_, ⟨_, g', hid, ?_, hg.draws⟩, ?_⟩
  · rw [List.length_map, List.length_range]
  · rw [hg.draws, hg'.draws]
    omega
  · intro b hb
    rw [batch_eq hb]
    refine ⟨?_, batchIds_nodup _ _, fun id => mem_batchIds _ _ id⟩
    rw [List.length_map, List.length_range]

end ServerKit
