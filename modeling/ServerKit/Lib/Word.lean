import Mathlib.Algebra.Group.Nat.Defs

/-!
# Unsigned 64-bit arithmetic

Natural numbers below `2 ^ 64` with the wrapping addition and subtraction of an unsigned 64-bit
machine word.
-/

namespace ServerKit.Lib

/-- `a + b` on 64-bit words. -/
def wordAdd (a b : ℕ) : ℕ := (a + b) % 2 ^ 64

/-- `a - b` on 64-bit words. -/
def wordSub (a b : ℕ) : ℕ := (a + (2 ^ 64 - b % 2 ^ 64)) % 2 ^ 64

theorem wordAdd_eq_of_lt {a b : ℕ} (h : a + b < 2 ^ 64) : wordAdd a b = a + b :=
  Nat.mod_eq_of_lt h

theorem wordSub_eq_of_le {a b : ℕ} (h : b ≤ a) (ha : a < 2 ^ 64) : wordSub a b = a - b := by
  unfold wordSub
  omega

theorem wordAdd_assoc (a b c : ℕ) : wordAdd (wordAdd a b) c = wordAdd a (b + c) := by
  unfold wordAdd
  omega

/-- A difference of two running totals is right whether or not they have wrapped. -/
theorem wordSub_wordAdd {a n : ℕ} (h : n < 2 ^ 64) : wordSub (wordAdd a n) a = n := by
  unfold wordSub wordAdd
  omega

end ServerKit.Lib
