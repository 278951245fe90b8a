import ServerKit.Lib.Gregorian
import ServerKit.Util.Time

/-!
# The dates of `Localtime`

`int a` is the number of the day from 1 March of 4800 BC. Each division takes off what the larger
units are made of: first the centuries, then the years, then the months.
-/

namespace ServerKit

open Lib

/-! ## Days, years and centuries -/

/-- `e` is a day of the year `r` of the century `b`. -/
def DayOfYear (b r e : ℕ) : Prop := e ≤ 364 ∨ e = 365 ∧ r % 4 = 3 ∧ (r = 99 → b % 4 = 3)

/-- The number of a day in its century. -/
def centuryDay (r e : ℕ) : ℕ := 365 * r + r / 4 + e

theorem dayOfYear {d : Date} (h : d.Valid) :
    DayOfYear (d.marchYear / 100) (d.marchYear % 100) d.marchDay := by
  rcases h.marchDay_le with hday | ⟨hday, hleap⟩
  · exact .inl hday
  · unfold IsLeap at hleap
    refine .inr ⟨hday, ?_, ?_⟩
    · omega
    · omega

theorem dayNumber_eq (d : Date) : (d.dayNumber : ℤ) =
    36524 * (d.marchYear / 100 : ℕ) + (d.marchYear / 100 / 4 : ℕ) +
      centuryDay (d.marchYear % 100) d.marchDay := by
  unfold Date.dayNumber centuryDay
  rw [Date.yearDays_split]
  push_cast
  omega

section Steps

variable {b r e m : ℕ} {a : ℤ}

theorem DayOfYear.centuryDay_lt (he : DayOfYear b r e) (hr : r < 100) :
    centuryDay r e < 40000 := by
  unfold DayOfYear at he
  unfold centuryDay
  omega

theorem century_eq (ha : a = 36524 * b + (b / 4 : ℕ) + centuryDay r e) (hr : r < 100)
    (he : DayOfYear b r e) : (a * 4 + 3) / 146097 = b := by
  unfold DayOfYear at he
  unfold centuryDay at ha
  omega

theorem centuryDay_eq (ha : a = 36524 * b + (b / 4 : ℕ) + centuryDay r e) :
    -((b : ℤ) * 146097 / 4) + a = centuryDay r e := by
  omega

theorem year_eq (he : DayOfYear b r e) : ((centuryDay r e : ℤ) * 4 + 3) / 1461 = r := by
  unfold DayOfYear at he
  unfold centuryDay
  omega

theorem day_eq (r e : ℕ) : -((r : ℤ) * 1461 / 4) + centuryDay r e = e := by
  unfold centuryDay
  omega

theorem centuryPart_eq (ha : a = 36524 * b + (b / 4 : ℕ) + centuryDay r e) (hb : b ≤ 10000)
    (hr : r < 100) (he : DayOfYear b r e) : centuryPart a = .ok (b, centuryDay r e) := by
  have hcentury := century_eq ha hr he
  have hday := centuryDay_eq ha
  have hlt := he.centuryDay_lt hr
  have h1 : mulInt a 4 = .ok (a * 4) := mulInt_ok (by rw [isInt_iff]; omega)
  have h2 : addInt (a * 4) 3 = .ok (a * 4 + 3) := addInt_ok (by rw [isInt_iff]; omega)
  have h3 : divInt (a * 4 + 3) kMagicUnkonwnFirst = .ok b :=
    divInt_ok (by omega) (by decide) hcentury (by rw [isInt_iff]; omega)
  have h4 : negInt b = .ok (-b) := negInt_ok (by rw [isInt_iff]; omega)
  have h5 : mulInt (-b) kMagicUnkonwnFirst = .ok (-(b * 146097)) := by
    rw [← Int.neg_mul]
    exact mulInt_ok (by unfold kMagicUnkonwnFirst; rw [isInt_iff]; omega)
  have h6 : divInt (-(b * 146097)) 4 = .ok (-(b * 146097 / 4)) :=
    divInt_neg_ok (by omega) (by decide) rfl (by rw [isInt_iff]; omega)
  have h7 : addInt (-(b * 146097 / 4)) a = .ok (centuryDay r e : ℤ) := by
    rw [← hday]
    exact addInt_ok (by rw [isInt_iff]; omega)
  rw [centuryPart, h1, ok_bind, h2, ok_bind, h3, ok_bind, h4, ok_bind, h5, ok_bind, h6, ok_bind,
    h7, ok_bind]
  rfl

theorem yearPart_eq (hr : r < 100) (he : DayOfYear b r e) :
    yearPart (centuryDay r e) = .ok ((r : ℤ), (e : ℤ)) := by
  have hyear := year_eq he
  have hday := day_eq r e
  have hlt := he.centuryDay_lt hr
  generalize (centuryDay r e : ℤ) = c at *
  have h1 : mulInt c 4 = .ok (c * 4) := mulInt_ok (by rw [isInt_iff]; omega)
  have h2 : addInt (c * 4) 3 = .ok (c * 4 + 3) := addInt_ok (by rw [isInt_iff]; omega)
  have h3 : divInt (c * 4 + 3) kMagicUnkonwnSec = .ok r :=
    divInt_ok (by omega) (by decide) hyear (by rw [isInt_iff]; omega)
  have h4 : negInt r = .ok (-r) := negInt_ok (by rw [isInt_iff]; omega)
  have h5 : mulInt (-r) kMagicUnkonwnSec = .ok (-(r * 1461)) := by
    rw [← Int.neg_mul]
    exact mulInt_ok (by unfold kMagicUnkonwnSec; rw [isInt_iff]; omega)
  have h6 : divInt (-(r * 1461)) 4 = .ok (-(r * 1461 / 4)) :=
    divInt_neg_ok (by omega) (by decide) rfl (by rw [isInt_iff]; omega)
  have h7 : addInt (-(r * 1461 / 4)) c = .ok (e : ℤ) := by
    rw [← hday]
    exact addInt_ok (by rw [isInt_iff]; omega)
  rw [yearPart, h1, ok_bind, h2, ok_bind, h3, ok_bind, h4, ok_bind, h5, ok_bind, h6, ok_bind, h7,
    ok_bind]
  rfl

theorem monthPart_eq {mday : ℕ} (he : e ≤ 365) (hm : m < 12) (hmon : (5 * e + 2) / 153 = m)
    (hmday : Date.monthStart m + mday = e + 1) : monthPart e = .ok ((m : ℤ), (mday : ℤ)) := by
  unfold Date.monthStart at hmday
  have h1 : mulInt 5 e = .ok (5 * e) := mulInt_ok (by rw [isInt_iff]; omega)
  have h2 : addInt (5 * e) 2 = .ok (5 * e + 2) := addInt_ok (by rw [isInt_iff]; omega)
  have h3 : divInt (5 * e + 2) kDaysFromYear = .ok m :=
    divInt_ok (by omega) (by decide) (by unfold kDaysFromYear; omega) (by rw [isInt_iff]; omega)
  have h4 : mulInt kDaysFromYear m = .ok (153 * m) :=
    mulInt_ok (by unfold kDaysFromYear; rw [isInt_iff]; omega)
  have h5 : addInt (153 * m) 2 = .ok (153 * m + 2) := addInt_ok (by rw [isInt_iff]; omega)
  have h6 : negInt (153 * m + 2) = .ok (-(153 * m + 2)) := negInt_ok (by rw [isInt_iff]; omega)
  have h7 : divInt (-(153 * m + 2)) 5 = .ok (-((153 * m + 2) / 5)) :=
    divInt_neg_ok (by omega) (by decide) rfl (by rw [isInt_iff]; omega)
  have h8 : addInt (-((153 * m + 2) / 5)) e = .ok (-((153 * m + 2) / 5) + e) :=
    addInt_ok (by rw [isInt_iff]; omega)
  have h9 : addInt (-((153 * m + 2) / 5) + e) 1 = .ok (mday : ℤ) := by
    have hsum : (mday : ℤ) = -((153 * m + 2) / 5) + e + 1 := by omega
    rw [hsum]
    exact addInt_ok (by rw [isInt_iff]; omega)
  rw [monthPart, h1, ok_bind, h2, ok_bind, h3, ok_bind, h4, ok_bind, h5, ok_bind, h6, ok_bind, h7,
    ok_bind, h8, ok_bind, h9, ok_bind]
  rfl

theorem monPart_eq (hm : m < 12) : monPart m = .ok (-((m / 10 : ℕ) : ℤ) * 12 + m + 2) := by
  have h1 : negInt m = .ok (-m) := negInt_ok (by rw [isInt_iff]; omega)
  have h2 : divInt (-m) 10 = .ok (-((m / 10 : ℕ) : ℤ)) :=
    divInt_neg_ok (by omega) (by decide) (by omega) (by rw [isInt_iff]; omega)
  have h3 : mulInt (-((m / 10 : ℕ) : ℤ)) 12 = .ok (-((m / 10 : ℕ) : ℤ) * 12) :=
    mulInt_ok (by rw [isInt_iff]; omega)
  have h4 : addInt (-((m / 10 : ℕ) : ℤ) * 12) m = .ok (-((m / 10 : ℕ) : ℤ) * 12 + m) :=
    addInt_ok (by rw [isInt_iff]; omega)
  rw [monPart, h1, ok_bind, h2, ok_bind, h3, ok_bind, h4, ok_bind]
  exact addInt_ok (by rw [isInt_iff]; omega)

theorem yearSum_eq (hb : b ≤ 10000) (hr : r < 100) (hm : m < 12) :
    yearSum b r m = .ok (b * 100 + r - 6700 + (m / 10 : ℕ)) := by
  have h1 : mulInt b 100 = .ok ((b : ℤ) * 100) := mulInt_ok (by rw [isInt_iff]; omega)
  have h2 : addInt ((b : ℤ) * 100) r = .ok (b * 100 + r) := addInt_ok (by rw [isInt_iff]; omega)
  have h3 : subInt (b * 100 + r) 6700 = .ok (b * 100 + r - 6700) :=
    subInt_ok (by rw [isInt_iff]; omega)
  have h4 : divInt m 10 = .ok ((m / 10 : ℕ) : ℤ) :=
    divInt_ok (by omega) (by decide) (by omega) (by rw [isInt_iff]; omega)
  rw [yearSum, h1, ok_bind, h2, ok_bind, h3, ok_bind, h4, ok_bind]
  exact addInt_ok (by rw [isInt_iff]; omega)

end Steps

/-! ## The date of a day -/

theorem mon_of_marchMon {d : Date} (h : d.mon < 12) :
    -((d.marchMon / 10 : ℕ) : ℤ) * 12 + d.marchMon + 2 = d.mon := by
  unfold Date.marchMon
  split <;> omega

theorem year_of_marchYear {d : Date} (h : d.mon < 12) :
    ((d.marchYear / 100 : ℕ) : ℤ) * 100 + (d.marchYear % 100 : ℕ) - 6700 + (d.marchMon / 10 : ℕ) =
      d.year - 1900 := by
  unfold Date.marchYear Date.marchMon
  split <;> omega

/-- The parts of `Localtime` from `int a` on give the fields of the date with that number. -/
theorem parts_eq {d : Date} (h : d.Valid) (hb : d.marchYear / 100 ≤ 10000) :
    ∃ b c r e m : ℤ, centuryPart d.dayNumber = .ok (b, c) ∧ yearPart c = .ok (r, e) ∧
      monthPart e = .ok (m, (d.mday : ℤ)) ∧ monPart m = .ok (d.mon : ℤ) ∧
      yearSum b r m = .ok ((d.year : ℤ) - 1900) := by
  have hr : d.marchYear % 100 < 100 := Nat.mod_lt _ (by decide)
  have he := dayOfYear h
  have hmday : Date.monthStart d.marchMon + d.mday = d.marchDay + 1 := by
    have hpos := h.mday_pos
    unfold Date.marchDay
    omega
  have he365 : d.marchDay ≤ 365 := by
    rcases he with he | ⟨he, -⟩ <;> omega
  refine ⟨_, _, _, _, _, centuryPart_eq (dayNumber_eq d) hb hr he, yearPart_eq hr he,
    monthPart_eq he365 h.marchMon_lt h.marchMon_eq hmday, ?_, ?_⟩
  · rw [← mon_of_marchMon h.mon_lt]
    exact monPart_eq h.marchMon_lt
  · rw [← year_of_marchYear h.mon_lt]
    exact yearSum_eq hb hr h.marchMon_lt

/-- **`Localtime`** fills in the date and the time of day eight hours after `unix_sec`, and no
`int` overflows on the way, as long as the minutes since 1970 are an `int`. -/
theorem localtime_eq {unixSec : ℤ} (h0 : 0 ≤ unixSec) (h : unixSec < 60 * 2147483648) :
    ∃ d, d = Date.ofDays ((unixSec + 28800) / 86400).toNat ∧ d.Valid ∧
      localtime unixSec = .ok
        { sec := (unixSec + 28800) % 60
          min := (unixSec + 28800) / 60 % 60
          hour := (unixSec + 28800) / 3600 % 24
          mday := d.mday
          mon := d.mon
          year := d.year - 1900 } := by
  have hvalid := Date.ofDays_valid ((unixSec + 28800) / 86400).toNat
  have hnumber := Date.dayNumber_ofDays ((unixSec + 28800) / 86400).toNat
  generalize Date.ofDays ((unixSec + 28800) / 86400).toNat = d at *
  refine ⟨d, rfl, hvalid, ?_⟩
  have hb : d.marchYear / 100 ≤ 10000 := by
    have hsum := dayNumber_eq d
    omega
  obtain ⟨b, c, r, e, m, hcentury, hyear, hmonth, hmon, hsum⟩ := parts_eq hvalid hb
  have hsec : castInt (unixSec.tmod kMinutesInHour) = (unixSec + 28800) % 60 := by
    have hmod : unixSec.tmod kMinutesInHour = unixSec % 60 := Int.tmod_eq_emod_of_nonneg h0
    rw [hmod, castInt_of_isInt (by rw [isInt_iff]; omega)]
    omega
  have hi : castInt (unixSec.tdiv kMinutesInHour) = unixSec / 60 := by
    have hdiv : unixSec.tdiv kMinutesInHour = unixSec / 60 := Int.tdiv_eq_ediv_of_nonneg h0
    rw [hdiv, castInt_of_isInt (by rw [isInt_iff]; omega)]
  have h1 : modInt (unixSec / 60) kMinutesInHour = .ok ((unixSec + 28800) / 60 % 60) := by
    have hmin : (unixSec + 28800) / 60 % 60 = unixSec / 60 % kMinutesInHour := by
      unfold kMinutesInHour
      omega
    rw [hmin]
    exact modInt_ok (by omega) (by decide) (by unfold kMinutesInHour; rw [isInt_iff]; omega)
  have h2 : divInt (unixSec / 60) kMinutesInHour = .ok (unixSec / 60 / 60) :=
    divInt_ok (by omega) (by decide) rfl (by rw [isInt_iff]; omega)
  have h3 : addInt (unixSec / 60 / 60) 8 = .ok ((unixSec + 28800) / 3600) := by
    have hhours : (unixSec + 28800) / 3600 = unixSec / 60 / 60 + 8 := by omega
    rw [hhours]
    exact addInt_ok (by rw [isInt_iff]; omega)
  have h4 : modInt ((unixSec + 28800) / 3600) kHoursInDay = .ok ((unixSec + 28800) / 3600 % 24) :=
    modInt_ok (by omega) (by decide) (by unfold kHoursInDay; rw [isInt_iff]; omega)
  have h5 : divInt ((unixSec + 28800) / 3600) kHoursInDay = .ok ((unixSec + 28800) / 86400) :=
    divInt_ok (by omega) (by decide) (by unfold kHoursInDay; omega) (by rw [isInt_iff]; omega)
  have h6 : addInt ((unixSec + 28800) / 86400) kDaysFromUnixTime = .ok (d.dayNumber : ℤ) := by
    have ha : (d.dayNumber : ℤ) = (unixSec + 28800) / 86400 + kDaysFromUnixTime := by
      unfold kDaysFromUnixTime
      omega
    rw [ha]
    exact addInt_ok (by unfold kDaysFromUnixTime; rw [isInt_iff]; omega)
  rw [localtime, hsec, hi, h1, ok_bind, h2, ok_bind, h3, ok_bind, h4, ok_bind, ok_bind, h5, ok_bind,
    h6, ok_bind, hcentury, ok_bind]
  simp only [hyear, hmonth, hmon, hsum, ok_bind]
  rfl

/-- The begin of 1 March 2000, behind the leap day of a century. -/
theorem localtime_leap_day : ∃ d, d = Date.ofDays 11017 ∧ d.Valid ∧ d = ⟨2000, 2, 1⟩ ∧
    localtime 951840000 = .ok
      { sec := 0, min := 0, hour := 0, mday := d.mday, mon := d.mon, year := d.year - 1900 } := by
  have hsec : (0 : ℤ) ≤ 951840000 := by decide
  obtain ⟨d, hd, hvalid, h⟩ := localtime_eq hsec (by decide)
  have hfields : localtime 951840000 =
      .ok { sec := 0, min := 0, hour := 0, mday := 1, mon := 2, year := 100 } := by decide
  obtain ⟨-, -, -, hmday, hmon, hyear⟩ := Tm.mk.inj (Except.ok.inj (h.symm.trans hfields))
  refine ⟨d, hd, hvalid, ?_, h⟩
  obtain ⟨year, mon, mday⟩ := d
  simp only [Date.mk.injEq] at hmday hmon hyear ⊢
  omega

example : localtime 951782400 =
    .ok { sec := 0, min := 0, hour := 8, mday := 29, mon := 1, year := 100 } := by decide

end ServerKit
