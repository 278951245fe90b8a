import Mathlib.Algebra.Order.Ring.Int

/-!
# Checked arithmetic on 32-bit `int`s

An `int` is an integer, and each operation says whether its result is one. Division truncates
toward zero, and the remainder has the sign of the dividend. Converting to an `int` wraps.
-/

namespace ServerKit.Lib

/-- What an `int` expression can run into. -/
inductive IntFault
  | overflow
  | divByZero
deriving DecidableEq, Repr

def intMin : ℤ := -2147483648

def intMax : ℤ := 2147483647

/-- The values of an `int`. -/
def IsInt (x : ℤ) : Prop := intMin ≤ x ∧ x ≤ intMax

instance (x : ℤ) : Decidable (IsInt x) := inferInstanceAs (Decidable (_ ∧ _))

/-- The value of an expression whose exact value is `x`. -/
def checkInt (x : ℤ) : Except IntFault ℤ := if IsInt x then .ok x else .error .overflow

def addInt (a b : ℤ) : Except IntFault ℤ := checkInt (a + b)

def subInt (a b : ℤ) : Except IntFault ℤ := checkInt (a - b)

def mulInt (a b : ℤ) : Except IntFault ℤ := checkInt (a * b)

def negInt (a : ℤ) : Except IntFault ℤ := checkInt (-a)

def divInt (a b : ℤ) : Except IntFault ℤ :=
  if b = 0 then .error .divByZero else checkInt (a.tdiv b)

/-- The remainder, which is undefined with the quotient. -/
def modInt (a b : ℤ) : Except IntFault ℤ :=
  if b = 0 then .error .divByZero else if IsInt (a.tdiv b) then .ok (a.tmod b) else .error .overflow

/-- `static_cast<int>` of a wider integer. -/
def castInt (x : ℤ) : ℤ := x.bmod 4294967296

theorem checkInt_ok {x : ℤ} (h : IsInt x) : checkInt x = .ok x := if_pos h

theorem isInt_iff {x : ℤ} : IsInt x ↔ -2147483648 ≤ x ∧ x ≤ 2147483647 := Iff.rfl

theorem addInt_ok {a b : ℤ} (h : IsInt (a + b)) : addInt a b = .ok (a + b) := checkInt_ok h

theorem subInt_ok {a b : ℤ} (h : IsInt (a - b)) : subInt a b = .ok (a - b) := checkInt_ok h

theorem mulInt_ok {a b : ℤ} (h : IsInt (a * b)) : mulInt a b = .ok (a * b) := checkInt_ok h

theorem negInt_ok {a : ℤ} (h : IsInt (-a)) : negInt a = .ok (-a) := checkInt_ok h

/-- The quotient of `int`s that are not negative is the one rounded down. -/
theorem divInt_ok {a b q : ℤ} (ha : 0 ≤ a) (hb : 0 < b) (hq : a / b = q) (h : IsInt q) :
    divInt a b = .ok q := by
  have hdiv : a.tdiv b = q := by rw [Int.tdiv_eq_ediv_of_nonneg ha, hq]
  rw [divInt, if_neg hb.ne', hdiv, checkInt_ok h]

/-- The quotient of a negated dividend is rounded up. -/
theorem divInt_neg_ok {a b q : ℤ} (ha : 0 ≤ a) (hb : 0 < b) (hq : a / b = q) (h : IsInt (-q)) :
    divInt (-a) b = .ok (-q) := by
  have hdiv : (-a).tdiv b = -q := by rw [Int.neg_tdiv, Int.tdiv_eq_ediv_of_nonneg ha, hq]
  rw [divInt, if_neg hb.ne', hdiv, checkInt_ok h]

theorem modInt_ok {a b : ℤ} (ha : 0 ≤ a) (hb : 0 < b) (h : IsInt (a / b)) :
    modInt a b = .ok (a % b) := by
  have hdiv : a.tdiv b = a / b := Int.tdiv_eq_ediv_of_nonneg ha
  rw [modInt, if_neg hb.ne', hdiv, if_pos h, Int.tmod_eq_emod_of_nonneg ha]

theorem castInt_of_isInt {x : ℤ} (h : IsInt x) : castInt x = x := by
  unfold IsInt intMin intMax at h
  unfold castInt
  rw [Int.bmod_def]
  split <;> omega

end ServerKit.Lib
