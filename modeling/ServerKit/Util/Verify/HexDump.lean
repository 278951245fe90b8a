import ServerKit.Util.Verify.Formatting

/-!
# Which strings a hex dump determines

`%x` writes one digit for a byte below 16 and two for the others, and nothing marks where a byte
ends: two digits of which the first is not 0 can be read as one byte or as two.
-/

namespace ServerKit

open Lib

/-! ## The dump of a string -/

theorem hexText_length_le (b : UInt8) : (hexText b).length ≤ 2 := by
  unfold hexText
  split
  · exact Nat.le_succ 1
  · exact Nat.le_refl 2

theorem stringPrintf_hexText (b : UInt8) :
    stringPrintf 0 (vsnprintfC (hexText b)) = some (.ok (hexText b)) := by
  have hlen := hexText_length_le b
  apply stringPrintf_small
  unfold kSmallFixedSize
  omega

theorem stringToHex_eq (str : List UInt8) :
    stringToHex str = some (.ok ([48, 120] ++ str.flatMap hexText)) := by
  unfold stringToHex
  simp only [stringPrintf_hexText]
  generalize ([48, 120] : List UInt8) = hex
  induction str generalizing hex with
  | nil =>
    rw [List.flatMap_nil, List.append_nil]
    rfl
  | cons b str ih =>
    rw [List.foldlM_cons, List.flatMap_cons, ← List.append_assoc]
    exact ih (hex ++ hexText b)

theorem stringToHex_eq_iff {s t : List UInt8} :
    stringToHex s = stringToHex t ↔ s.flatMap hexText = t.flatMap hexText := by
  rw [stringToHex_eq, stringToHex_eq, Option.some.injEq, Except.ok.injEq]
  exact List.append_right_inj _

/-! ## One byte -/

theorem hexDigit_inj {m n : ℕ} (hm : m < 16) (hn : n < 16) (h : hexDigit m = hexDigit n) :
    m = n := by
  unfold hexDigit at h
  have heq := congrArg UInt8.toNat h
  rw [UInt8.toNat_ofNat', UInt8.toNat_ofNat'] at heq
  split at heq <;> split at heq <;> omega

theorem hexText_of_lt {b : UInt8} (h : b.toNat < 16) : hexText b = [hexDigit b.toNat] := if_pos h

theorem hexText_of_ge {b : UInt8} (h : 16 ≤ b.toNat) :
    hexText b = [hexDigit (b.toNat / 16), hexDigit (b.toNat % 16)] := if_neg (by omega)

/-- A digit as a byte of its own. -/
theorem hexText_digit {n : ℕ} (h : n < 16) : hexText (UInt8.ofNat n) = [hexDigit n] := by
  have hn : (UInt8.ofNat n).toNat = n := by
    rw [UInt8.toNat_ofNat']
    omega
  rw [hexText_of_lt (by omega), hn]

/-- Two digits as one byte. -/
theorem hexText_pair {m n : ℕ} (h0 : 0 < m) (hm : m < 16) (hn : n < 16) :
    hexText (UInt8.ofNat (16 * m + n)) = [hexDigit m, hexDigit n] := by
  have hmn : (UInt8.ofNat (16 * m + n)).toNat = 16 * m + n := by
    rw [UInt8.toNat_ofNat']
    omega
  have hdiv : (16 * m + n) / 16 = m := by omega
  have hmod : (16 * m + n) % 16 = n := by omega
  rw [hexText_of_ge (by omega), hmn, hdiv, hmod]

/-! ## Whole strings -/

/-- No other string has the dump of `s`. -/
def DumpDetermines (s : List UInt8) : Prop := ∀ t, stringToHex t = stringToHex s → t = s

/-- Zero bytes and at most one byte below 16 behind them. -/
def ZerosAndDigit (s : List UInt8) : Prop :=
  ∃ n l, s = List.replicate n 0 ++ l ∧ l.length ≤ 1 ∧ ∀ b ∈ l, b.toNat < 16

theorem ZerosAndDigit.lt {s : List UInt8} (h : ZerosAndDigit s) : ∀ b ∈ s, b.toNat < 16 := by
  obtain ⟨n, l, rfl, -, hl⟩ := h
  intro b hb
  rcases List.mem_append.mp hb with hb | hb
  · rw [List.eq_of_mem_replicate hb]
    decide
  · exact hl b hb

theorem ZerosAndDigit.cons_zero {s : List UInt8} (h : ZerosAndDigit s) :
    ZerosAndDigit (0 :: s) := by
  obtain ⟨n, l, rfl, hlen, hl⟩ := h
  exact ⟨n + 1, l, rfl, hlen, hl⟩

theorem DumpDetermines.tail {b : UInt8} {s : List UInt8} (h : DumpDetermines (b :: s)) :
    DumpDetermines s := by
  intro t ht
  have hcons : b :: t = b :: s := by
    apply h
    rw [stringToHex_eq_iff] at ht ⊢
    rw [List.flatMap_cons, List.flatMap_cons, ht]
  exact (List.cons.inj hcons).2

/-- A byte that takes two digits can be read as two bytes. -/
theorem DumpDetermines.head_lt {b : UInt8} {s : List UInt8} (h : DumpDetermines (b :: s)) :
    b.toNat < 16 := by
  by_contra hb
  have hlt := b.toNat_lt
  have hsplit : UInt8.ofNat (b.toNat / 16) :: UInt8.ofNat (b.toNat % 16) :: s = b :: s := by
    apply h
    rw [stringToHex_eq_iff, List.flatMap_cons, List.flatMap_cons, List.flatMap_cons,
      hexText_digit (by omega), hexText_digit (by omega), hexText_of_ge (by omega)]
    rfl
  have hlen := congrArg List.length hsplit
  rw [List.length_cons, List.length_cons, List.length_cons] at hlen
  omega

/-- Two digits of which the first is not 0 can be read as one byte. -/
theorem DumpDetermines.head_eq_zero {b c : UInt8} {s : List UInt8}
    (h : DumpDetermines (b :: c :: s)) : b = 0 := by
  by_contra hb
  have hb16 := h.head_lt
  have hc16 := h.tail.head_lt
  have hpos : 0 < b.toNat := Nat.pos_of_ne_zero fun h0 => hb (UInt8.toNat_inj.mp h0)
  have hjoin : UInt8.ofNat (16 * b.toNat + c.toNat) :: s = b :: c :: s := by
    apply h
    rw [stringToHex_eq_iff, List.flatMap_cons, List.flatMap_cons, List.flatMap_cons,
      hexText_pair hpos hb16 hc16, hexText_of_lt hb16, hexText_of_lt hc16]
    rfl
  have hlen := congrArg List.length hjoin
  rw [List.length_cons, List.length_cons, List.length_cons] at hlen
  omega

theorem DumpDetermines.zerosAndDigit {s : List UInt8} (h : DumpDetermines s) :
    ZerosAndDigit s := by
  induction s with
  | nil => exact ⟨0, [], rfl, Nat.zero_le 1, nofun⟩
  | cons b s ih =>
    have hs := ih h.tail
    cases s with
    | nil =>
      refine ⟨0, [b], rfl, Nat.le_refl 1, fun d hd => ?_⟩
      rw [List.mem_singleton.mp hd]
      exact h.head_lt
    | cons c s =>
      rw [h.head_eq_zero]
      exact hs.cons_zero

theorem eq_nil_of_dump {t : List UInt8} (h : t.flatMap hexText = []) : t = [] := by
  cases t with
  | nil => rfl
  | cons b t =>
    rw [List.flatMap_cons] at h
    have hnil := List.append_eq_nil_iff.mp h
    unfold hexText at hnil
    split at hnil
    · cases hnil.1
    · cases hnil.1

/-- A dump that begins with a 0 is that of a string that begins with a zero byte. -/
theorem head_eq_zero_of_dump {b : UInt8} {t digits : List UInt8}
    (h : (b :: t).flatMap hexText = hexDigit 0 :: digits) :
    b = 0 ∧ t.flatMap hexText = digits := by
  have hlt := b.toNat_lt
  rw [List.flatMap_cons] at h
  by_cases hb : b.toNat < 16
  · rw [hexText_of_lt hb] at h
    obtain ⟨hhead, htail⟩ := List.cons.inj h
    exact ⟨UInt8.toNat_inj.mp (hexDigit_inj hb (by decide) hhead), htail⟩
  · rw [hexText_of_ge (by omega)] at h
    have hhead := hexDigit_inj (by omega) (by decide) (List.cons.inj h).1
    omega

/-- The only string with a dump of one digit. -/
theorem eq_singleton_of_dump {d : UInt8} (hd : d.toNat < 16) {t : List UInt8}
    (h : t.flatMap hexText = [hexDigit d.toNat]) : t = [d] := by
  cases t with
  | nil => cases h
  | cons b t =>
    rw [List.flatMap_cons] at h
    by_cases hb : b.toNat < 16
    · rw [hexText_of_lt hb] at h
      obtain ⟨hhead, htail⟩ := List.cons.inj h
      rw [UInt8.toNat_inj.mp (hexDigit_inj hb hd hhead), eq_nil_of_dump htail]
    · rw [hexText_of_ge (by omega)] at h
      cases (List.cons.inj h).2

theorem ZerosAndDigit.dumpDetermines {s : List UInt8} (h : ZerosAndDigit s) :
    DumpDetermines s := by
  obtain ⟨n, l, rfl, hlen, hl⟩ := h
  intro t ht
  rw [stringToHex_eq_iff] at ht
  induction n generalizing t with
  | zero =>
    cases l with
    | nil => exact eq_nil_of_dump ht
    | cons d l =>
      have hnil : l.length = 0 := Nat.le_zero.mp (Nat.le_of_succ_le_succ hlen)
      obtain rfl : l = [] := List.eq_nil_of_length_eq_zero hnil
      have hd := hl d List.mem_cons_self
      apply eq_singleton_of_dump hd
      rw [ht, ← hexText_of_lt hd]
      exact List.append_nil _
  | succ n ih =>
    cases t with
    | nil => cases ht
    | cons b t =>
      obtain ⟨rfl, htail⟩ := head_eq_zero_of_dump ht
      rw [ih t htail]
      rfl

/-- **Hex dumps**: the dump determines the string if and only if zero bytes and at most one byte
below 16 make up the string. -/
theorem stringToHex_determines_iff (s : List UInt8) :
    (∀ t, stringToHex t = stringToHex s → t = s) ↔ ZerosAndDigit s :=
  ⟨DumpDetermines.zerosAndDigit, ZerosAndDigit.dumpDetermines⟩

theorem stringToHex_ambiguous :
    stringToHex [0x01, 0x23] = stringToHex [0x12, 0x03] ∧
      ([0x01, 0x23] : List UInt8) ≠ [0x12, 0x03] := by
  rw [stringToHex_eq_iff]
  decide

end ServerKit
