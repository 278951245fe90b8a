import Mathlib.Algebra.Group.Nat.Defs
import Mathlib.Data.List.Basic

/-!
# Little-endian integers and raw memory

The bytes an integer field occupies on a little-endian machine, and what is left of a block of
memory when bytes are copied over its beginning.
-/

namespace ServerKit.Lib

/-- The `w` bytes of `n`, lowest first. -/
def leBytes : ℕ → ℕ → List UInt8
  | 0, _ => []
  | w + 1, n => UInt8.ofNat n :: leBytes w (n / 256)

/-- The number that bytes stand for, lowest first. -/
def leNat : List UInt8 → ℕ
  | [] => 0
  | b :: bs => b.toNat + 256 * leNat bs

@[simp] theorem leBytes_length (w n : ℕ) : (leBytes w n).length = w := by
  induction w generalizing n with
  | zero => rfl
  | succ w ih => simp [leBytes, ih]

theorem leNat_lt (bs : List UInt8) : leNat bs < 256 ^ bs.length := by
  induction bs with
  | nil => decide
  | cons b bs ih =>
    have hb := b.toNat_lt
    simp only [leNat, List.length_cons, Nat.pow_succ]
    omega

/-- **Decoding undoes encoding**, for the numbers that fit. -/
theorem leNat_leBytes {w n : ℕ} (h : n < 256 ^ w) : leNat (leBytes w n) = n := by
  induction w generalizing n with
  | zero =>
    obtain rfl : n = 0 := by simpa using h
    rfl
  | succ w ih =>
    rw [leBytes, leNat, ih (Nat.div_lt_of_lt_mul (by rw [Nat.pow_succ] at h; omega)),
      UInt8.toNat_ofNat']
    omega

/-- **Encoding undoes decoding**: an integer field takes any bytes of its width. -/
theorem leBytes_leNat (bs : List UInt8) : leBytes bs.length (leNat bs) = bs := by
  induction bs with
  | nil => rfl
  | cons b bs ih =>
    have hb := b.toNat_lt
    have hlow : UInt8.ofNat (b.toNat + 256 * leNat bs) = b := by
      apply UInt8.toNat_inj.mp
      rw [UInt8.toNat_ofNat']
      omega
    have hhigh : (b.toNat + 256 * leNat bs) / 256 = leNat bs := by omega
    rw [leNat, List.length_cons, leBytes, hlow, hhigh, ih]

/-! ## Machine words -/

/-- A 64-bit word in memory. -/
def wordBytes (x : UInt64) : List UInt8 := leBytes 8 x.toNat

/-- The 64-bit word that eight bytes stand for. -/
def bytesWord (bs : List UInt8) : UInt64 := UInt64.ofNat (leNat bs)

/-- A 32-bit word in memory. -/
def halfBytes (x : UInt32) : List UInt8 := leBytes 4 x.toNat

/-- The 32-bit word that four bytes stand for. -/
def bytesHalf (bs : List UInt8) : UInt32 := UInt32.ofNat (leNat bs)

@[simp] theorem wordBytes_length (x : UInt64) : (wordBytes x).length = 8 := leBytes_length _ _

@[simp] theorem halfBytes_length (x : UInt32) : (halfBytes x).length = 4 := leBytes_length _ _

@[simp] theorem bytesWord_wordBytes (x : UInt64) : bytesWord (wordBytes x) = x := by
  have hx : x.toNat < 256 ^ 8 := x.toNat_lt
  rw [bytesWord, wordBytes, leNat_leBytes hx, UInt64.ofNat_toNat]

@[simp] theorem bytesHalf_halfBytes (x : UInt32) : bytesHalf (halfBytes x) = x := by
  have hx : x.toNat < 256 ^ 4 := x.toNat_lt
  rw [bytesHalf, halfBytes, leNat_leBytes hx, UInt32.ofNat_toNat]

theorem wordBytes_bytesWord {bs : List UInt8} (h : bs.length = 8) :
    wordBytes (bytesWord bs) = bs := by
  have hlt : leNat bs < UInt64.size := by simpa [h] using leNat_lt bs
  rw [wordBytes, bytesWord, UInt64.toNat_ofNat_of_lt' hlt, ← h, leBytes_leNat]

theorem halfBytes_bytesHalf {bs : List UInt8} (h : bs.length = 4) :
    halfBytes (bytesHalf bs) = bs := by
  have hlt : leNat bs < UInt32.size := by simpa [h] using leNat_lt bs
  rw [halfBytes, bytesHalf, UInt32.toNat_ofNat_of_lt' hlt, ← h, leBytes_leNat]

/-! ## Memory -/

/-- A block of memory after `src` has been copied over its beginning. -/
def patch (block src : List UInt8) : List UInt8 := src ++ block.drop src.length

theorem patch_eq_of_length_le {block src : List UInt8} (h : block.length ≤ src.length) :
    patch block src = src := by
  rw [patch, List.drop_eq_nil_of_le h, List.append_nil]

end ServerKit.Lib
