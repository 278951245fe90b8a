import Mathlib.Algebra.Order.Ring.Int
import ServerKit.Util.String

/-!
# All or nothing in `stringAppendV`

Both kinds of `vsnprintf` end the loop: the one that reports the length of the text in its first
round, the one that reports that the buffer is too small when the doubled size holds the text or
passes `kMaxAppendSize`.
-/

namespace ServerKit

open Lib

/-- A `vsnprintf` that reports the length of the text whether or not the text fits. -/
structure ReportsLength (vsnprintf : Vsnprintf) (text : List UInt8) : Prop where
  length_le : (text.length : ℤ) ≤ intMax
  result : ∀ size : ℤ, 0 < size → (vsnprintf size).1 = text.length
  stored : ∀ size : ℤ, text.length < size → (vsnprintf size).2.take text.length = text

/-- A `vsnprintf` that reports the length of the text when it fits, and -1 when it does not. -/
structure ReportsFit (vsnprintf : Vsnprintf) (text : List UInt8) : Prop where
  result : ∀ size : ℤ, text.length < size → (vsnprintf size).1 = text.length
  stored : ∀ size : ℤ, text.length < size → (vsnprintf size).2.take text.length = text
  tooSmall : ∀ size : ℤ, 0 < size → size ≤ text.length → (vsnprintf size).1 = -1

/-- What `stringAppendV` is to leave in `dst`. -/
def appended (dst text : List UInt8) : List UInt8 :=
  if (text.length : ℤ) + 1 ≤ kMaxAppendSize then dst ++ text else dst

/-- However many rounds are allowed from some number on, the call returns `dst'`. -/
def AppendReturns (vsnprintf : Vsnprintf) (dst dst' : List UInt8) : Prop :=
  ∃ n, ∀ rounds, n ≤ rounds → stringAppendV rounds vsnprintf dst = some (.ok dst')

section Rounds

variable {vsnprintf : Vsnprintf} {dst text : List UInt8} {rounds : ℕ} {result length : ℤ}

theorem appendLoop_succ {next : ℤ}
    (h : nextLength result length = .ok next) :
    appendLoop vsnprintf dst (rounds + 1) result length =
      if next > kMaxAppendSize then some (.ok dst)
      else if 0 ≤ (vsnprintf next).1 ∧ (vsnprintf next).1 < next then
        some (.ok (dst ++ (vsnprintf next).2.take (vsnprintf next).1.toNat))
      else appendLoop vsnprintf dst rounds (vsnprintf next).1 next := by
  rw [appendLoop, h]
  rfl

theorem stringAppendV_eq : stringAppendV rounds vsnprintf dst =
    if 0 ≤ (vsnprintf kSmallFixedSize).1 ∧ (vsnprintf kSmallFixedSize).1 < kSmallFixedSize then
      some (.ok (dst ++ (vsnprintf kSmallFixedSize).2.take (vsnprintf kSmallFixedSize).1.toNat))
    else appendLoop vsnprintf dst rounds (vsnprintf kSmallFixedSize).1 kSmallFixedSize := rfl

/-- The first buffer holds the text. -/
theorem stringAppendV_small (h : (text.length : ℤ) < kSmallFixedSize)
    (hresult : (vsnprintf kSmallFixedSize).1 = text.length)
    (hstored : (vsnprintf kSmallFixedSize).2.take text.length = text) :
    stringAppendV rounds vsnprintf dst = some (.ok (appended dst text)) := by
  have hmax : (text.length : ℤ) + 1 ≤ kMaxAppendSize := by
    unfold kSmallFixedSize at h
    unfold kMaxAppendSize
    omega
  rw [stringAppendV_eq, hresult, if_pos ⟨Int.natCast_nonneg _, h⟩, Int.toNat_natCast, hstored,
    appended, if_pos hmax]

/-- A round with a buffer that holds the text. -/
theorem appendLoop_fits {next : ℤ}
    (h : nextLength result length = .ok next)
    (hmax : next ≤ kMaxAppendSize) (hfit : (text.length : ℤ) < next)
    (hresult : (vsnprintf next).1 = text.length)
    (hstored : (vsnprintf next).2.take text.length = text) :
    appendLoop vsnprintf dst (rounds + 1) result length = some (.ok (appended dst text)) := by
  have hlen : (text.length : ℤ) + 1 ≤ kMaxAppendSize := by omega
  rw [appendLoop_succ h, if_neg (by omega), hresult, if_pos ⟨Int.natCast_nonneg _, hfit⟩,
    Int.toNat_natCast, hstored, appended, if_pos hlen]

/-- A round whose buffer would be too long. -/
theorem appendLoop_tooLong {next : ℤ}
    (h : nextLength result length = .ok next)
    (hmax : kMaxAppendSize < next) (hlen : kMaxAppendSize ≤ text.length) :
    appendLoop vsnprintf dst (rounds + 1) result length = some (.ok (appended dst text)) := by
  rw [appendLoop_succ h, if_pos hmax, appended, if_neg (by omega)]

end Rounds

/-! ## The two kinds of `vsnprintf` -/

section Kinds

variable {vsnprintf : Vsnprintf} {text : List UInt8}

theorem doubled_ok {length : ℤ} (h0 : 0 < length) (h : length ≤ kMaxAppendSize) :
    nextLength (-1) length = .ok (length * 2) := by
  unfold kMaxAppendSize at h
  apply checkInt_ok
  unfold IsInt intMin intMax
  omega

/-- From a size that `d` doublings take to `kMaxAppendSize`, at most `d + 1` rounds are left. -/
theorem ReportsFit.appendLoop (h : ReportsFit vsnprintf text) (dst : List UInt8) (d : ℕ) :
    ∀ {length : ℤ} {rounds : ℕ}, length * 2 ^ d = kMaxAppendSize → 0 < length →
      length ≤ text.length → d < rounds →
      ServerKit.appendLoop vsnprintf dst rounds (-1) length = some (.ok (appended dst text)) := by
  induction d with
  | zero =>
    intro length rounds hd h0 hsmall hrounds
    obtain ⟨rounds, rfl⟩ : ∃ n, rounds = n + 1 := ⟨rounds - 1, by omega⟩
    rw [pow_zero, mul_one] at hd
    apply appendLoop_tooLong (doubled_ok h0 (by omega))
    · omega
    · omega
  | succ d ih =>
    intro length rounds hd h0 hsmall hrounds
    obtain ⟨rounds, rfl⟩ : ∃ n, rounds = n + 1 := ⟨rounds - 1, by omega⟩
    have hnext : length * 2 * 2 ^ d = kMaxAppendSize := by
      rw [mul_assoc, ← pow_succ', hd]
    have hmax : length * 2 ≤ kMaxAppendSize := by
      rw [← hnext]
      exact le_mul_of_one_le_right (by omega) (one_le_pow₀ (by decide))
    have hok := doubled_ok h0 (by omega)
    by_cases hfit : (text.length : ℤ) < length * 2
    · exact appendLoop_fits hok hmax hfit (h.result _ hfit) (h.stored _ hfit)
    · have hneg := h.tooSmall (length * 2) (by omega) (by omega)
      rw [appendLoop_succ hok, if_neg (by omega), hneg, if_neg (by omega)]
      exact ih hnext (by omega) (by omega) (by omega)

theorem ReportsFit.returns (h : ReportsFit vsnprintf text) (dst : List UInt8) :
    AppendReturns vsnprintf dst (appended dst text) := by
  refine ⟨16, fun rounds hrounds => ?_⟩
  by_cases hfit : (text.length : ℤ) < kSmallFixedSize
  · exact stringAppendV_small hfit (h.result _ hfit) (h.stored _ hfit)
  · have hneg := h.tooSmall kSmallFixedSize (by decide) (by omega)
    rw [stringAppendV_eq, hneg, if_neg (by omega)]
    exact h.appendLoop dst 15 (by decide) (by decide) (by omega) (by omega)

/-- The sum `result + 1` overflows. -/
theorem ReportsLength.overflows (h : ReportsLength vsnprintf text)
    (hmax : (text.length : ℤ) = intMax) (dst : List UInt8) (rounds : ℕ) :
    stringAppendV (rounds + 1) vsnprintf dst = some (.error .overflow) := by
  have hresult := h.result kSmallFixedSize (by decide)
  rw [stringAppendV_eq, hresult, hmax, if_neg (by decide), ServerKit.appendLoop]
  rfl

theorem ReportsLength.returns (h : ReportsLength vsnprintf text)
    (hmax : (text.length : ℤ) ≠ intMax) (dst : List UInt8) :
    AppendReturns vsnprintf dst (appended dst text) := by
  have hresult := h.result kSmallFixedSize (by decide)
  refine ⟨1, fun rounds hrounds => ?_⟩
  by_cases hfit : (text.length : ℤ) < kSmallFixedSize
  · exact stringAppendV_small hfit hresult (h.stored _ hfit)
  · obtain ⟨rounds, rfl⟩ : ∃ n, rounds = n + 1 := ⟨rounds - 1, by omega⟩
    have hle := h.length_le
    have hok : nextLength text.length kSmallFixedSize = .ok ((text.length : ℤ) + 1) := by
      rw [nextLength, if_neg (by omega)]
      apply checkInt_ok
      unfold IsInt intMin
      omega
    rw [stringAppendV_eq, hresult, if_neg (by omega)]
    by_cases hlen : (text.length : ℤ) + 1 ≤ kMaxAppendSize
    · apply appendLoop_fits hok hlen (by omega)
      · exact h.result _ (by omega)
      · exact h.stored _ (by omega)
    · exact appendLoop_tooLong hok (by omega) (by omega)

end Kinds

/-! ## The `vsnprintf` of the C standard -/

theorem vsnprintfC_stored {text : List UInt8} {size : ℤ} (h : text.length < size) :
    (vsnprintfC text size).2.take text.length = text := by
  have htake : text.take (size.toNat - 1) = text := List.take_of_length_le (by omega)
  change (text.take (size.toNat - 1) ++ [0]).take text.length = text
  rw [htake]
  exact List.take_left

theorem vsnprintfC_reportsLength {text : List UInt8} (h : (text.length : ℤ) ≤ intMax) :
    ReportsLength (vsnprintfC text) text :=
  ⟨h, fun _ _ => rfl, fun _ hsize => vsnprintfC_stored hsize⟩

/-- `StringPrintf` of a short text. -/
theorem stringPrintf_small {text : List UInt8} (h : (text.length : ℤ) < kSmallFixedSize)
    (rounds : ℕ) : stringPrintf rounds (vsnprintfC text) = some (.ok text) := by
  have hmax : (text.length : ℤ) + 1 ≤ kMaxAppendSize := by
    unfold kSmallFixedSize at h
    unfold kMaxAppendSize
    omega
  have hsmall : stringAppendV rounds (vsnprintfC text) [] = _ :=
    stringAppendV_small h rfl (vsnprintfC_stored h)
  rwa [appended, if_pos hmax] at hsmall

/-- **All or nothing**: for every string and every `vsnprintf` of the two kinds, the call returns
with the text appended when it fits into `kMaxAppendSize`, and with the string as it was otherwise,
unless `vsnprintf` reports the largest `int`; and only then an `int` overflows. -/
theorem stringAppendV_iff {vsnprintf : Vsnprintf} {text : List UInt8}
    (h : ReportsLength vsnprintf text ∨ ReportsFit vsnprintf text) (dst : List UInt8) :
    AppendReturns vsnprintf dst (appended dst text) ↔ (vsnprintf kSmallFixedSize).1 ≠ intMax := by
  rcases h with h | h
  · rw [h.result kSmallFixedSize (by decide)]
    constructor
    · rintro ⟨n, hn⟩ hmax
      have hret := hn (n + 1) (Nat.le_succ n)
      rw [h.overflows hmax] at hret
      cases hret
    · intro hmax
      exact h.returns hmax dst
  · refine ⟨fun _ hmax => ?_, fun _ => h.returns dst⟩
    by_cases hfit : (text.length : ℤ) < kSmallFixedSize
    · rw [h.result _ hfit] at hmax
      rw [hmax] at hfit
      exact absurd hfit (by decide)
    · rw [h.tooSmall _ (by decide) (by omega)] at hmax
      exact absurd hmax (by decide)

theorem stringAppendV_one :
    AppendReturns (vsnprintfC [97]) [98] (appended [98] [97]) ∧ appended [98] [97] = [98, 97] :=
  ⟨(stringAppendV_iff (.inl (vsnprintfC_reportsLength (by decide))) [98]).mpr (by decide),
    by decide⟩

/-- A text of 2147483647 characters. -/
def longestText : List UInt8 := List.replicate 2147483647 97

theorem stringAppendV_longestText :
    ReportsLength (vsnprintfC longestText) longestText ∧
      ¬ AppendReturns (vsnprintfC longestText) [] (appended [] longestText) := by
  have hlen : (longestText.length : ℤ) = intMax := by
    rw [longestText, List.length_replicate]
    rfl
  have hreports := vsnprintfC_reportsLength hlen.le
  refine ⟨hreports, ?_⟩
  rintro ⟨n, hn⟩
  have hret := hn (n + 1) (Nat.le_succ n)
  rw [hreports.overflows hlen] at hret
  cases hret

end ServerKit
