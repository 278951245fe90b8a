import Mathlib.Algebra.Group.Nat.Defs
import Mathlib.Tactic.IntervalCases

/-!
# The proleptic Gregorian calendar

A date is reached from 1970-01-01 by going to the next day so many times. Counted from 1 March, the
months have a length that does not depend on the year, but for the last one, which ends the year;
so the number of a day is a sum of quotients.
-/

namespace ServerKit.Lib

/-- A date. Months count from 0, days of the month from 1. -/
structure Date where
  year : ℕ
  mon : ℕ
  mday : ℕ
deriving DecidableEq, Repr

/-- The Gregorian rule. -/
def IsLeap (year : ℕ) : Prop := year % 4 = 0 ∧ year % 100 ≠ 0 ∨ year % 400 = 0

instance (year : ℕ) : Decidable (IsLeap year) := inferInstanceAs (Decidable (_ ∨ _))

def monthLength (year : ℕ) : ℕ → ℕ
  | 1 => if IsLeap year then 29 else 28
  | 3 | 5 | 8 | 10 => 30
  | _ => 31

namespace Date

/-- The month is one of the year, and the day one of the month. -/
structure Valid (d : Date) : Prop where
  mon_lt : d.mon < 12
  mday_pos : 1 ≤ d.mday
  mday_le : d.mday ≤ monthLength d.year d.mon

def next (d : Date) : Date :=
  if d.mday < monthLength d.year d.mon then { d with mday := d.mday + 1 }
  else if d.mon < 11 then { d with mon := d.mon + 1, mday := 1 }
  else { year := d.year + 1, mon := 0, mday := 1 }

def epoch : Date := ⟨1970, 0, 1⟩

/-- The date `n` days after 1970-01-01. -/
def ofDays : ℕ → Date
  | 0 => epoch
  | n + 1 => (ofDays n).next

theorem monthLength_pos (year mon : ℕ) : 1 ≤ monthLength year mon := by
  unfold monthLength
  split
  · split <;> omega
  all_goals omega

theorem Valid.next {d : Date} (h : d.Valid) : d.next.Valid := by
  have hmon := h.mon_lt
  unfold Date.next
  split
  · rename_i hlt
    exact ⟨hmon, Nat.le_add_left 1 _, hlt⟩
  · split
    · rename_i hlt
      exact ⟨Nat.add_lt_of_lt_sub hlt, Nat.le_refl 1, monthLength_pos _ _⟩
    · exact ⟨Nat.zero_lt_succ 11, Nat.le_refl 1, monthLength_pos _ _⟩

theorem ofDays_valid (n : ℕ) : (ofDays n).Valid := by
  induction n with
  | zero => exact ⟨by decide, by decide, by decide⟩
  | succ n ih => exact ih.next

/-! ## Years that begin in March -/

/-- The year that began in the last March, counted from 4800 BC. -/
def marchYear (d : Date) : ℕ := if d.mon < 2 then d.year + 4799 else d.year + 4800

/-- The month, counted from March. -/
def marchMon (d : Date) : ℕ := if d.mon < 2 then d.mon + 10 else d.mon - 2

/-- The number of days before a month that is counted from March. -/
def monthStart (mon : ℕ) : ℕ := (153 * mon + 2) / 5

/-- The day of the year, counted from 1 March. -/
def marchDay (d : Date) : ℕ := monthStart d.marchMon + d.mday - 1

/-- The number of days in the first `n` years. -/
def yearDays (n : ℕ) : ℕ := 365 * n + n / 4 - n / 100 + n / 400

/-- The number of days from 1 March of 4800 BC. -/
def dayNumber (d : Date) : ℕ := yearDays d.marchYear + d.marchDay

section Parts

variable {year mon mday : ℕ}

theorem marchYear_early (h : mon < 2) : marchYear ⟨year, mon, mday⟩ = year + 4799 := if_pos h

theorem marchYear_late (h : 2 ≤ mon) : marchYear ⟨year, mon, mday⟩ = year + 4800 :=
  if_neg (Nat.not_lt.mpr h)

theorem marchMon_early (h : mon < 2) : marchMon ⟨year, mon, mday⟩ = mon + 10 := if_pos h

theorem marchMon_late (h : 2 ≤ mon) : marchMon ⟨year, mon, mday⟩ = mon - 2 :=
  if_neg (Nat.not_lt.mpr h)

theorem dayNumber_early (h : mon < 2) : dayNumber ⟨year, mon, mday⟩ =
    yearDays (year + 4799) + (monthStart (mon + 10) + mday - 1) := by
  rw [dayNumber, marchDay, marchYear_early h, marchMon_early h]

theorem dayNumber_late (h : 2 ≤ mon) : dayNumber ⟨year, mon, mday⟩ =
    yearDays (year + 4800) + (monthStart (mon - 2) + mday - 1) := by
  rw [dayNumber, marchDay, marchYear_late h, marchMon_late h]

end Parts

theorem monthStart_add_monthLength (year : ℕ) {mon : ℕ} (h2 : 2 ≤ mon) (h : mon < 12) :
    monthStart (mon - 2) + monthLength year mon = monthStart (mon + 1 - 2) := by
  interval_cases mon <;> rfl

/-- Inside a month. -/
theorem dayNumber_tomorrow {d : Date} (h : 1 ≤ d.mday) :
    dayNumber { d with mday := d.mday + 1 } = d.dayNumber + 1 := by
  change yearDays d.marchYear + (monthStart d.marchMon + (d.mday + 1) - 1) = _
  unfold dayNumber marchDay
  omega

/-- The year that begins in March ends with the February of the next one. -/
theorem yearDays_succ (year : ℕ) :
    yearDays (year + 4800) = yearDays (year + 4799) + 337 + monthLength year 1 := by
  have h4 : (year + 4800) / 4 = (year + 4799) / 4 + if year % 4 = 0 then 1 else 0 := by
    split <;> omega
  have h100 : (year + 4800) / 100 = (year + 4799) / 100 + if year % 100 = 0 then 1 else 0 := by
    split <;> omega
  have h400 : (year + 4800) / 400 = (year + 4799) / 400 + if year % 400 = 0 then 1 else 0 := by
    split <;> omega
  have hle : (year + 4799) / 100 ≤ (year + 4799) / 4 := Nat.div_le_div_left (by decide) (by decide)
  have h100_4 : year % 100 = 0 → year % 4 = 0 := by omega
  have h400_100 : year % 400 = 0 → year % 100 = 0 := by omega
  have hlen : monthLength year 1 = if IsLeap year then 29 else 28 := rfl
  unfold yearDays
  rw [h4, h100, h400, hlen]
  clear h4 h100 h400 hlen
  generalize (year + 4799) / 4 = q at *
  generalize (year + 4799) / 100 = q' at *
  generalize (year + 4799) / 400 = q'' at *
  by_cases hleap : IsLeap year
  · rw [if_pos hleap]
    unfold IsLeap at hleap
    split_ifs <;> omega
  · rw [if_neg hleap]
    unfold IsLeap at hleap
    split_ifs <;> omega

/-- From the last day of a month to the first of the next. -/
theorem dayNumber_month {year mon : ℕ} (h : mon < 11) :
    dayNumber ⟨year, mon + 1, 1⟩ = dayNumber ⟨year, mon, monthLength year mon⟩ + 1 := by
  have hlen := monthLength_pos year mon
  rcases Nat.lt_or_ge mon 2 with hmon | hmon
  · interval_cases mon
    · have hjan : monthStart (0 + 1 + 10) = monthStart (0 + 10) + monthLength year 0 := rfl
      rw [dayNumber_early (Nat.lt_succ_self 1), dayNumber_early Nat.two_pos, hjan]
      omega
    · have hfeb : monthStart (1 + 10) = 337 := rfl
      have hmarch : monthStart (1 + 1 - 2) = 0 := rfl
      rw [dayNumber_late (Nat.le_refl 2), dayNumber_early (Nat.lt_succ_self 1), yearDays_succ, hfeb,
        hmarch]
      omega
  · rw [dayNumber_late (by omega), dayNumber_late hmon,
      ← monthStart_add_monthLength year hmon (by omega)]
    omega

theorem dayNumber_year (year : ℕ) :
    dayNumber ⟨year + 1, 0, 1⟩ = dayNumber ⟨year, 11, 31⟩ + 1 := by
  have hdec : monthStart (0 + 10) = monthStart (11 - 2) + 31 := rfl
  rw [dayNumber_early Nat.two_pos, dayNumber_late (by decide), hdec]
  rfl

theorem Valid.dayNumber_next {d : Date} (h : d.Valid) : d.next.dayNumber = d.dayNumber + 1 := by
  obtain ⟨year, mon, mday⟩ := d
  obtain ⟨hmon, hpos, hle⟩ := h
  unfold Date.next
  split
  · exact dayNumber_tomorrow hpos
  · rename_i hlast
    obtain rfl : mday = monthLength year mon := Nat.le_antisymm hle (Nat.not_lt.mp hlast)
    split
    · rename_i hlt
      exact dayNumber_month hlt
    · rename_i hdec
      obtain rfl : mon = 11 := Nat.le_antisymm (Nat.le_of_lt_succ hmon) (Nat.not_lt.mp hdec)
      exact dayNumber_year year

theorem dayNumber_epoch : epoch.dayNumber = 2472632 := by
  have hjan : monthStart (0 + 10) = 306 := rfl
  have hyears : yearDays (1970 + 4799) = 2472326 := by simp [yearDays]
  rw [epoch, dayNumber_early Nat.two_pos, hjan, hyears]

theorem dayNumber_ofDays (n : ℕ) : (ofDays n).dayNumber = 2472632 + n := by
  induction n with
  | zero => exact dayNumber_epoch
  | succ n ih =>
    rw [ofDays, (ofDays_valid n).dayNumber_next, ih]
    exact Nat.add_assoc _ _ _

/-! ## Days as sums of quotients -/

/-- The number of days in centuries and in years of a century. -/
theorem yearDays_split (n : ℕ) :
    yearDays n = 36524 * (n / 100) + n / 100 / 4 + 365 * (n % 100) + n % 100 / 4 := by
  have hn := Nat.div_add_mod n 100
  have hmod := Nat.mod_lt n (y := 100) (by decide)
  generalize n / 100 = century at *
  generalize n % 100 = year at *
  subst hn
  have h4 : (100 * century + year) / 4 = 25 * century + year / 4 := by omega
  have h100 : (100 * century + year) / 100 = century := by omega
  have h400 : (100 * century + year) / 400 = century / 4 := by omega
  unfold yearDays
  rw [h4, h100, h400]
  omega

theorem Valid.marchMon_lt {d : Date} (h : d.Valid) : d.marchMon < 12 := by
  have hmon := h.mon_lt
  unfold marchMon
  split <;> omega

/-- A day comes before the next month. -/
theorem Valid.lt_monthStart {d : Date} (h : d.Valid) :
    monthStart d.marchMon + d.mday ≤ monthStart (d.marchMon + 1) := by
  obtain ⟨year, mon, mday⟩ := d
  obtain ⟨hmon, -, hle⟩ := h
  change mon < 12 at hmon
  change mday ≤ monthLength year mon at hle
  rcases Nat.lt_or_ge mon 2 with h2 | h2
  · rw [marchMon_early h2]
    change monthStart (mon + 10) + mday ≤ monthStart (mon + 10 + 1)
    interval_cases mon
    · exact Nat.add_le_add_left hle (monthStart 10)
    · have hfeb : monthLength year 1 ≤ 29 := by
        change (if IsLeap year then 29 else 28) ≤ 29
        split <;> decide
      unfold monthStart
      omega
  · have hsum := monthStart_add_monthLength year h2 hmon
    have hsucc : mon + 1 - 2 = mon - 2 + 1 := by omega
    rw [hsucc] at hsum
    rw [marchMon_late h2, ← hsum]
    exact Nat.add_le_add_left hle _

/-- Only a year before 29 February has a day 365. -/
theorem Valid.marchDay_le {d : Date} (h : d.Valid) :
    d.marchDay ≤ 364 ∨ d.marchDay = 365 ∧ IsLeap (d.marchYear + 1) := by
  have hend := h.lt_monthStart
  obtain ⟨year, mon, mday⟩ := d
  obtain ⟨hmon, hpos, hle⟩ := h
  change mon < 12 at hmon
  change 1 ≤ mday at hpos
  change mday ≤ monthLength year mon at hle
  unfold marchDay
  by_cases hfeb : mon = 1
  · subst hfeb
    have h337 : monthStart (1 + 10) = 337 := rfl
    rw [marchMon_early (Nat.lt_succ_self 1), marchYear_early (Nat.lt_succ_self 1), h337]
    change 337 + mday - 1 ≤ 364 ∨ 337 + mday - 1 = 365 ∧ IsLeap (year + 4800)
    by_cases hleap : IsLeap year
    · have hlen : monthLength year 1 = 29 := if_pos hleap
      have hleap' : IsLeap (year + 4800) := by
        unfold IsLeap at hleap ⊢
        omega
      rcases Nat.lt_or_ge mday 29 with hlt | hge
      · left
        omega
      · right
        exact ⟨by omega, hleap'⟩
    · have hlen : monthLength year 1 = 28 := if_neg hleap
      left
      omega
  · left
    have hm : marchMon ⟨year, mon, mday⟩ ≤ 10 := by
      rcases Nat.lt_or_ge mon 2 with h2 | h2
      · rw [marchMon_early h2]
        omega
      · rw [marchMon_late h2]
        omega
    unfold monthStart at hend ⊢
    omega

/-- The month of a day. -/
theorem Valid.marchMon_eq {d : Date} (h : d.Valid) : (5 * d.marchDay + 2) / 153 = d.marchMon := by
  have hend := h.lt_monthStart
  have hlt := h.marchMon_lt
  have hpos := h.mday_pos
  unfold marchDay
  unfold monthStart at hend ⊢
  omega

end Date

end ServerKit.Lib
