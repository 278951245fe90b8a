import ServerKit.Core.TimerThread
import ServerKit.Util.Verify.LocalDates

/-!
# The time in front of a log message

`updateTime` writes the local time with milliseconds. In the range of `Localtime` the text fills its
buffer exactly, and texts compare as the times do: from the most significant part to the least, each
part is a numeral of a fixed width below a bound.
-/

namespace ServerKit

open Lib

/-! ## Dates -/

namespace Lib.Date

/-- A date as the log has it. -/
def text (d : Date) : List UInt8 :=
  fixed 4 d.year ++ 0x2f :: (fixed 2 (d.mon + 1) ++ 0x2f :: fixed 2 d.mday)

theorem length_text (d : Date) : d.text.length = 10 := by
  simp [text]

/-- The year of a day, in the range of `Localtime`. -/
theorem ofDays_year {n : ℕ} (h : n < 1491310) :
    1000 ≤ (ofDays n).year ∧ (ofDays n).year < 10000 := by
  have hnumber := dayNumber_ofDays n
  have hday := (ofDays_valid n).marchDay_le
  generalize ofDays n = d at hnumber hday
  have hmarch : d.marchYear = d.year + 4799 ∨ d.marchYear = d.year + 4800 := by
    unfold marchYear
    split <;> simp
  unfold dayNumber yearDays at hnumber
  omega

/-- Texts of dates compare as the dates do. -/
theorem text_lt {d d' : Date} (hyear : d'.year < 10000) (hmon : d'.mon < 12) (hmday : d'.mday < 100)
    (h : d.year < d'.year ∨ d.year = d'.year ∧ (d.mon < d'.mon ∨ d.mon = d'.mon ∧
      d.mday < d'.mday)) : d.text < d'.text := by
  refine append_lt_append (by simp) ?_
  rcases h with hy | ⟨hy, hm⟩
  · exact .inl ((ascending_fixed 4).lt _ _ hy hyear)
  · refine .inr ⟨by rw [hy], List.cons_lt_cons_iff.mpr (.inr ⟨rfl, append_lt_append (by simp) ?_⟩)⟩
    rcases hm with hm | ⟨hm, hd⟩
    · exact .inl ((ascending_fixed 2).lt _ _ (by omega) (by omega))
    · refine .inr ⟨by rw [hm], List.cons_lt_cons_iff.mpr (.inr ⟨rfl, ?_⟩)⟩
      exact (ascending_fixed 2).lt _ _ hd hmday

theorem monthLength_le (year mon : ℕ) : monthLength year mon ≤ 31 := by
  unfold monthLength
  split
  · split <;> omega
  all_goals omega

theorem Valid.mday_lt {d : Date} (h : d.Valid) : d.mday < 100 := by
  have hle := h.mday_le
  have hlen := monthLength_le d.year d.mon
  omega

/-- **The next day has a later text.** -/
theorem Valid.text_lt_next {d : Date} (h : d.Valid) (hyear : d.next.year < 10000) :
    d.text < d.next.text := by
  have hnext := h.next
  refine text_lt hyear hnext.mon_lt hnext.mday_lt ?_
  unfold Date.next
  split
  · exact .inr ⟨rfl, .inr ⟨rfl, Nat.lt_succ_self _⟩⟩
  · split
    · exact .inr ⟨rfl, .inl (Nat.lt_succ_self _)⟩
    · exact .inl (Nat.lt_succ_self _)

/-- Texts of days ascend. -/
theorem ascending_text : Ascending (fun n => (ofDays n).text) 10 1491310 := by
  refine .of_succ (fun n _ => length_text _) fun n hn => ?_
  exact (ofDays_valid n).text_lt_next (ofDays_year hn).2

end Lib.Date

/-! ## Times of day -/

/-- The text of `t` milliseconds of local time. -/
def stampText (t : ℕ) : List UInt8 :=
  (Date.ofDays (t / 1000 / 60 / 60 / 24)).text ++
    0x20 :: (fixed 2 (t / 1000 / 60 / 60 % 24) ++ 0x3a :: (fixed 2 (t / 1000 / 60 % 60) ++
      0x3a :: (fixed 2 (t / 1000 % 60) ++ 0x2e :: fixed 3 (t % 1000))))

/-- **Texts ascend with the milliseconds.** -/
theorem ascending_stampText : Ascending stampText 23 (1491310 * 24 * 60 * 60 * 1000) := by
  have hhour := Date.ascending_text.append ((ascending_fixed 2).mono (k := 24) (by decide))
    (by decide) [0x20]
  have hmin := hhour.append ((ascending_fixed 2).mono (k := 60) (by decide)) (by decide) [0x3a]
  have hsec := hmin.append ((ascending_fixed 2).mono (k := 60) (by decide)) (by decide) [0x3a]
  have hmsec := hsec.append ((ascending_fixed 3).mono (k := 1000) (by decide)) (by decide) [0x2e]
  refine hmsec.congr fun t _ => ?_
  simp [stampText]

/-! ## `Localtime` and `snprintf` -/

theorem formatInt_zero {w n : ℕ} (h : n < 10 ^ (w + 1)) :
    formatInt 0x30 (w + 1) n = fixed (w + 1) n := by
  rw [formatInt, if_pos (Int.natCast_nonneg n), Int.toNat_natCast]
  exact padded_zero h

theorem formatInt_full {c : UInt8} {w n : ℕ} (hle : 10 ^ w ≤ n) (h : n < 10 ^ (w + 1)) :
    formatInt c (w + 1) n = fixed (w + 1) n := by
  rw [formatInt, if_pos (Int.natCast_nonneg n), Int.toNat_natCast, padded_full hle]
  exact padded_zero h

/-- What `Localtime` fills in for `sec` seconds since 1970. -/
def localTm (sec : ℕ) : Tm where
  sec := ((sec + 28800) % 60 : ℕ)
  min := ((sec + 28800) / 60 % 60 : ℕ)
  hour := ((sec + 28800) / 60 / 60 % 24 : ℕ)
  mday := (Date.ofDays ((sec + 28800) / 60 / 60 / 24)).mday
  mon := (Date.ofDays ((sec + 28800) / 60 / 60 / 24)).mon
  year := (Date.ofDays ((sec + 28800) / 60 / 60 / 24)).year - 1900

theorem localtime_nat {sec : ℕ} (h : sec < 60 * 2147483648) :
    localtime sec = .ok (localTm sec) := by
  unfold localTm
  have hvalid := Date.ofDays_valid ((sec + 28800) / 60 / 60 / 24)
  have hnumber := Date.dayNumber_ofDays ((sec + 28800) / 60 / 60 / 24)
  generalize Date.ofDays ((sec + 28800) / 60 / 60 / 24) = d at *
  have hb : d.marchYear / 100 ≤ 10000 := by
    have hsum := dayNumber_eq d
    omega
  obtain ⟨b, c, r, e, m, hcentury, hyear, hmonth, hmon, hsum⟩ := parts_eq hvalid hb
  have h0 : (0 : ℤ) ≤ sec := Int.natCast_nonneg sec
  -- the minutes and the hours, in the arithmetic of the code
  have hsec : castInt ((sec : ℤ).tmod kMinutesInHour) = ((sec + 28800) % 60 : ℕ) := by
    have hmod : (sec : ℤ).tmod kMinutesInHour = (sec : ℤ) % 60 := Int.tmod_eq_emod_of_nonneg h0
    rw [hmod, castInt_of_isInt (by rw [isInt_iff]; omega)]
    omega
  have hi : castInt ((sec : ℤ).tdiv kMinutesInHour) = (sec / 60 : ℕ) := by
    have hdiv : (sec : ℤ).tdiv kMinutesInHour = (sec : ℤ) / 60 := Int.tdiv_eq_ediv_of_nonneg h0
    rw [hdiv, castInt_of_isInt (by rw [isInt_iff]; omega)]
    omega
  have hmin : modInt (sec / 60 : ℕ) kMinutesInHour = .ok (((sec + 28800) / 60 % 60 : ℕ) : ℤ) := by
    have heq : (((sec + 28800) / 60 % 60 : ℕ) : ℤ) = ((sec / 60 : ℕ) : ℤ) % kMinutesInHour := by
      unfold kMinutesInHour
      omega
    rw [heq]
    exact modInt_ok (by omega) (by decide) (by unfold kMinutesInHour; rw [isInt_iff]; omega)
  have hhours : divInt (sec / 60 : ℕ) kMinutesInHour = .ok ((sec / 60 / 60 : ℕ) : ℤ) :=
    divInt_ok (by omega) (by decide) (by unfold kMinutesInHour; omega) (by rw [isInt_iff]; omega)
  have hlocal : addInt (sec / 60 / 60 : ℕ) 8 = .ok (((sec + 28800) / 60 / 60 : ℕ) : ℤ) := by
    have heq : (((sec + 28800) / 60 / 60 : ℕ) : ℤ) = ((sec / 60 / 60 : ℕ) : ℤ) + 8 := by omega
    rw [heq]
    exact addInt_ok (by rw [isInt_iff]; omega)
  have hhour : modInt ((sec + 28800) / 60 / 60 : ℕ) kHoursInDay =
      .ok (((sec + 28800) / 60 / 60 % 24 : ℕ) : ℤ) := by
    have heq : (((sec + 28800) / 60 / 60 % 24 : ℕ) : ℤ) =
        (((sec + 28800) / 60 / 60 : ℕ) : ℤ) % kHoursInDay := by
      unfold kHoursInDay
      omega
    rw [heq]
    exact modInt_ok (by omega) (by decide) (by unfold kHoursInDay; rw [isInt_iff]; omega)
  have hday : divInt ((sec + 28800) / 60 / 60 : ℕ) kHoursInDay =
      .ok (((sec + 28800) / 60 / 60 / 24 : ℕ) : ℤ) :=
    divInt_ok (by omega) (by decide) (by unfold kHoursInDay; omega) (by rw [isInt_iff]; omega)
  have ha : addInt ((sec + 28800) / 60 / 60 / 24 : ℕ) kDaysFromUnixTime =
      .ok (d.dayNumber : ℤ) := by
    have heq : (d.dayNumber : ℤ) = ((sec + 28800) / 60 / 60 / 24 : ℕ) + kDaysFromUnixTime := by
      unfold kDaysFromUnixTime
      omega
    rw [heq]
    exact addInt_ok (by unfold kDaysFromUnixTime; rw [isInt_iff]; omega)
  rw [localtime, hsec, hi, hmin, ok_bind, hhours, ok_bind, hlocal, ok_bind, hhour, ok_bind, ok_bind,
    hday, ok_bind, ha, ok_bind, hcentury, ok_bind]
  simp only [hyear, hmonth, hmon, hsum, ok_bind]
  rfl

/-- In its range the format makes numerals of fixed widths. -/
theorem logTimeFormat_eq {sec msec : ℕ} (h : sec < 60 * 2147483648) (hmsec : msec < 1000) :
    logTimeFormat (localTm sec) msec = stampText ((sec + 28800) * 1000 + msec) := by
  have hdiv : ((sec + 28800) * 1000 + msec) / 1000 = sec + 28800 := by omega
  have hmod : ((sec + 28800) * 1000 + msec) % 1000 = msec := by omega
  have hdays : (sec + 28800) / 60 / 60 / 24 < 1491310 := by omega
  have hyear := Date.ofDays_year hdays
  have hvalid := Date.ofDays_valid ((sec + 28800) / 60 / 60 / 24)
  rw [stampText, hdiv, hmod, Date.text]
  unfold logTimeFormat localTm
  generalize Date.ofDays ((sec + 28800) / 60 / 60 / 24) = d at *
  have hmday := hvalid.mday_lt
  have hmon := hvalid.mon_lt
  have hy : formatInt 0x20 4 ((d.year : ℤ) - 1900 + 1900) = fixed 4 d.year := by
    rw [Int.sub_add_cancel]
    exact formatInt_full (w := 3) hyear.1 hyear.2
  have hm : formatInt 0x30 2 ((d.mon : ℤ) + 1) = fixed 2 (d.mon + 1) :=
    formatInt_zero (w := 1) (n := d.mon + 1) (by omega)
  have hd : formatInt 0x30 2 (d.mday : ℤ) = fixed 2 d.mday := formatInt_zero (w := 1) hmday
  have hhour : formatInt 0x30 2 (((sec + 28800) / 60 / 60 % 24 : ℕ) : ℤ) =
      fixed 2 ((sec + 28800) / 60 / 60 % 24) := formatInt_zero (w := 1) (by omega)
  have hmin : formatInt 0x30 2 (((sec + 28800) / 60 % 60 : ℕ) : ℤ) =
      fixed 2 ((sec + 28800) / 60 % 60) := formatInt_zero (w := 1) (by omega)
  have hsec : formatInt 0x30 2 (((sec + 28800) % 60 : ℕ) : ℤ) = fixed 2 ((sec + 28800) % 60) :=
    formatInt_zero (w := 1) (by omega)
  have hms : formatInt 0x30 3 (msec : ℤ) = fixed 3 msec := formatInt_zero (w := 2) hmsec
  simp only [hy, hm, hd, hhour, hmin, hsec, hms, List.append_assoc, List.cons_append]

namespace Timeval

/-- The milliseconds of local time, since 1970. -/
def localMs (tv : Timeval) : ℕ := (tv.sec + 28800) * 1000 + tv.usec / 1000

theorem localMs_eq (tv : Timeval) : tv.localMs = tv.ms + 28800000 := by
  unfold localMs ms
  omega

theorem localMs_lt (tv : Timeval) : tv.localMs < 1491310 * 24 * 60 * 60 * 1000 := by
  have hsec := tv.sec_lt
  have husec := tv.usec_lt
  unfold localMs
  omega

theorem length_stampText (tv : Timeval) : (stampText tv.localMs).length = 23 :=
  ascending_stampText.length_eq _ tv.localMs_lt

/-- **`snprintf` writes the whole text** and its NUL. -/
theorem logTime_eq (tv : Timeval) : tv.logTime = .ok (stampText tv.localMs ++ [0]) := by
  have husec := tv.usec_lt
  have hlen : kLogTimeStringLength - 1 = (stampText tv.localMs).length := tv.length_stampText.symm
  rw [logTime, localtime_nat tv.sec_lt, ok_bind, logTimeFormat_eq tv.sec_lt (by omega)]
  change Except.ok (snprintf _ (stampText tv.localMs)) = _
  rw [snprintf, hlen, List.take_length]

end Timeval

theorem zero_notMem_stampText (t : ℕ) : (0 : UInt8) ∉ stampText t := by
  have hslash : (0 : UInt8) ≠ 0x2f := by decide
  have hspace : (0 : UInt8) ≠ 0x20 := by decide
  have hcolon : (0 : UInt8) ≠ 0x3a := by decide
  have hdot : (0 : UInt8) ≠ 0x2e := by decide
  simp only [stampText, Date.text, List.mem_append, List.mem_cons, zero_notMem_fixed, hslash,
    hspace, hcolon, hdot, or_self, not_false_iff]

/-- **Log times.** For any two times in the range of `Localtime`, the text written in front of a log
message fills its buffer exactly, with one NUL at the end, and the texts compare, byte by byte, as
the milliseconds do. -/
theorem logTimes_in_order (tv tv' : Timeval) :
    ∃ text text', tv.logTime = .ok (text ++ [0]) ∧ tv'.logTime = .ok (text' ++ [0]) ∧
      (text ++ [0]).length = kLogTimeStringLength ∧ (text' ++ [0]).length = kLogTimeStringLength ∧
      0 ∉ text ∧ 0 ∉ text' ∧ (text < text' ↔ tv.ms < tv'.ms) ∧ (text = text' ↔ tv.ms = tv'.ms) := by
  refine ⟨_, _, tv.logTime_eq, tv'.logTime_eq, ?_, ?_, zero_notMem_stampText _,
    zero_notMem_stampText _, ?_, ?_⟩
  · rw [List.length_append, tv.length_stampText]
    rfl
  · rw [List.length_append, tv'.length_stampText]
    rfl
  · rw [ascending_stampText.lt_iff tv.localMs_lt tv'.localMs_lt, tv.localMs_eq, tv'.localMs_eq]
    omega
  · constructor
    · intro heq
      have hms := ascending_stampText.inj tv.localMs_lt tv'.localMs_lt heq
      rw [tv.localMs_eq, tv'.localMs_eq] at hms
      omega
    · intro heq
      rw [tv.localMs_eq, tv'.localMs_eq, heq]

example : logTimeFormat { sec := 5, min := 0, hour := 8, mday := 29, mon := 1, year := 100 } 7 =
    "2000/02/29 08:00:05.007".toList.map fun c => UInt8.ofNat c.toNat := by decide

end ServerKit
