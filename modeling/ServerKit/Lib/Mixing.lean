import ServerKit.Lib.Bytes
import Mathlib.Logic.Function.Basic
import Mathlib.Tactic.Ring
import Mathlib.Tactic.Positivity

/-!
# Reversible mixing

The steps that hash functions are made of, and why no two words meet in them: a word with its high
bits folded over its low ones, a product with an odd number, and a word to which the others of a
triple have been added.
-/

namespace ServerKit.Lib

/-- A word folded to the right: its high bits stay, and the rest follow from them. -/
theorem xor_ushiftRight_injective {w r : ℕ} (hr : 0 < r) :
    Function.Injective fun x : BitVec w => x ^^^ (x >>> r) := by
  intro x y h
  have hbit : ∀ i, (x.getLsbD i ^^ x.getLsbD (r + i)) = (y.getLsbD i ^^ y.getLsbD (r + i)) := by
    intro i
    have hi := congrArg (fun z : BitVec w => z.getLsbD i) h
    simpa using hi
  -- the bits from the highest down: bit `i` of the word is that of the result and bit `r + i`
  have hall : ∀ n i, w ≤ i + n → x.getLsbD i = y.getLsbD i := by
    intro n
    induction n with
    | zero =>
      intro i hi
      rw [BitVec.getLsbD_of_ge x i hi, BitVec.getLsbD_of_ge y i hi]
    | succ n ih =>
      intro i hi
      have hhigh := ih (r + i) (by omega)
      have hlow := hbit i
      rw [hhigh] at hlow
      simpa using hlow
  exact BitVec.eq_of_getLsbD_eq fun i hi => hall w i (by omega)

theorem xorShift_injective {r : UInt64} (hr : 0 < r.toNat % 64) :
    Function.Injective fun h : UInt64 => h ^^^ (h >>> r) := by
  intro x y h
  have hbits := congrArg UInt64.toBitVec h
  simp only [UInt64.toBitVec_xor, UInt64.toBitVec_shiftRight] at hbits
  exact UInt64.toBitVec_inj.mp (xor_ushiftRight_injective (by simpa using hr) hbits)

/-- A product with a number that has an inverse. -/
theorem mul_injective_of_inverse {m n : UInt64} (h : m * n = 1) :
    Function.Injective fun x : UInt64 => x * m := by
  refine Function.LeftInverse.injective (g := fun x => x * n) fun x => ?_
  change x * m * n = x
  rw [UInt64.mul_assoc, h, UInt64.mul_one]

/-- A word of a triple, from which the others are taken before something is folded over it. -/
theorem sub_xor_injective (y z s : UInt64) :
    Function.Injective fun x : UInt64 => (x - y - z) ^^^ s := by
  intro x x' h
  have hxor : x - y - z = x' - y - z := UInt64.xor_left_inj s |>.mp h
  have hz : x - y = x' - y := by
    rw [← UInt64.sub_add_cancel (x - y) z, hxor, UInt64.sub_add_cancel]
  rw [← UInt64.sub_add_cancel x y, hz, UInt64.sub_add_cancel]

/-- A word has the bytes it has been made of. -/
theorem bytesWord_injective {x y : List UInt8} (hxy : x.length = y.length) (h8 : x.length ≤ 8)
    (h : bytesWord x = bytesWord y) : x = y := by
  have hlt : ∀ z : List UInt8, z.length ≤ 8 → leNat z < UInt64.size := fun z hz =>
    (leNat_lt z).trans_le (Nat.pow_le_pow_right (by omega) hz)
  have hnat := congrArg UInt64.toNat h
  rw [bytesWord, bytesWord, UInt64.toNat_ofNat_of_lt' (hlt x h8),
    UInt64.toNat_ofNat_of_lt' (hlt y (hxy ▸ h8))] at hnat
  rw [← leBytes_leNat x, hnat, hxy, leBytes_leNat]

/-! ## Words byte by byte -/

theorem leNat_append (xs ys : List UInt8) :
    leNat (xs ++ ys) = leNat xs + 256 ^ xs.length * leNat ys := by
  induction xs with
  | nil => simp [leNat]
  | cons x xs ih =>
    rw [List.cons_append, leNat, leNat, ih, List.length_cons, Nat.pow_succ]
    ring

/-- The next byte. -/
theorem leNat_take_succ {bs : List UInt8} {n : ℕ} (h : n < bs.length) :
    leNat (bs.take (n + 1)) = leNat (bs.take n) + 256 ^ n * (bs.getD n 0).toNat := by
  rw [List.take_succ_eq_append_getElem h, leNat_append, List.length_take, Nat.min_eq_left h.le,
    List.getD_eq_getElem?_getD, List.getElem?_eq_getElem h]
  simp [leNat]

/-- Numbers that share no bit. -/
theorem add_eq_xor {k a b : ℕ} (h : a < 2 ^ k) : a + 2 ^ k * b = a ^^^ b <<< k := by
  refine Nat.eq_of_testBit_eq fun i => ?_
  rw [Nat.add_comm, Nat.testBit_two_pow_mul_add b h, Nat.testBit_xor, Nat.testBit_shiftLeft]
  by_cases hi : i < k
  · simp [hi, Nat.not_le.mpr hi]
  · have hzero : a.testBit i = false :=
      Nat.testBit_lt_two_pow (h.trans_le (Nat.pow_le_pow_right (by omega) (by omega)))
    simp [hi, hzero, Nat.not_lt.mp hi]

/-- A byte of a word, in its place. -/
theorem byte_shiftLeft {n : ℕ} (hn : n < 8) (b : UInt8) :
    b.toUInt64 <<< UInt64.ofNat (8 * n) = UInt64.ofNat (256 ^ n * b.toNat) := by
  have hb := b.toNat_lt
  have hplace : (UInt64.ofNat (8 * n)).toNat = 8 * n := UInt64.toNat_ofNat_of_lt' (by
    change _ < 2 ^ 64
    omega)
  have hmod : 8 * n % 64 = 8 * n := Nat.mod_eq_of_lt (by omega)
  have hpow : (256 : ℕ) ^ n = 2 ^ (8 * n) := by rw [Nat.pow_mul]
  refine UInt64.toNat_inj.mp ?_
  rw [UInt64.toNat_shiftLeft, hplace, hmod, UInt8.toNat_toUInt64, UInt64.toNat_ofNat', hpow,
    Nat.shiftLeft_eq, Nat.mul_comm]

theorem leNat_take_lt (bs : List UInt8) (n : ℕ) : leNat (bs.take n) < 256 ^ n := by
  refine (leNat_lt _).trans_le (Nat.pow_le_pow_right (by omega) ?_)
  rw [List.length_take]
  exact Nat.min_le_left _ _

/-- A word to which bytes are added from the lowest up. -/
theorem bytesWord_take_succ {bs : List UInt8} {n : ℕ} (h : n < bs.length) (hn : n < 8) :
    bytesWord (bs.take (n + 1)) =
      bytesWord (bs.take n) + (bs.getD n 0).toUInt64 <<< UInt64.ofNat (8 * n) := by
  rw [byte_shiftLeft hn, bytesWord, leNat_take_succ h, UInt64.ofNat_add]
  rfl

/-- A word into which bytes are folded from the lowest up. -/
theorem bytesWord_take_succ_xor {bs : List UInt8} {n : ℕ} (h : n < bs.length) (hn : n < 8) :
    bytesWord (bs.take (n + 1)) =
      bytesWord (bs.take n) ^^^ (bs.getD n 0).toUInt64 <<< UInt64.ofNat (8 * n) := by
  have hpow : (256 : ℕ) ^ n = 2 ^ (8 * n) := by rw [Nat.pow_mul]
  have hlow : leNat (bs.take n) < 2 ^ (8 * n) := hpow ▸ leNat_take_lt bs n
  have hlt : leNat (bs.take (n + 1)) < UInt64.size :=
    (leNat_take_lt bs (n + 1)).trans_le
      (Nat.pow_le_pow_right (by omega) hn : 256 ^ (n + 1) ≤ 256 ^ 8)
  rw [leNat_take_succ h] at hlt
  refine UInt64.toNat_inj.mp ?_
  rw [UInt64.toNat_xor, byte_shiftLeft hn, bytesWord, bytesWord, leNat_take_succ h,
    UInt64.toNat_ofNat_of_lt' hlt,
    UInt64.toNat_ofNat_of_lt' (Nat.lt_of_le_of_lt (Nat.le_add_right ..) hlt),
    UInt64.toNat_ofNat_of_lt' (Nat.lt_of_le_of_lt (Nat.le_add_left ..) hlt), hpow,
    add_eq_xor hlow, Nat.shiftLeft_eq, Nat.mul_comm]

end ServerKit.Lib
