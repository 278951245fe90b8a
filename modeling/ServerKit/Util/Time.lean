import ServerKit.Lib.CInt
import ServerKit.Lib.Outcome

/-!
# `Localtime` of `util/time.cc`
-/

namespace ServerKit

open Lib

/-- The fields of a `struct tm` that `Localtime` fills. -/
structure Tm where
  sec : ℤ
  min : ℤ
  hour : ℤ
  mday : ℤ
  mon : ℤ
  year : ℤ
deriving DecidableEq, Repr

def kHoursInDay : ℤ := 24

def kMinutesInHour : ℤ := 60

def kDaysFromUnixTime : ℤ := 2472632

def kDaysFromYear : ℤ := 153

def kMagicUnkonwnFirst : ℤ := 146097

def kMagicUnkonwnSec : ℤ := 1461

/-- `int b` and `int c` of `Localtime`. -/
def centuryPart (a : ℤ) : Except IntFault (ℤ × ℤ) := do
  let b ← divInt (← addInt (← mulInt a 4) 3) kMagicUnkonwnFirst
  let c ← addInt (← divInt (← mulInt (← negInt b) kMagicUnkonwnFirst) 4) a
  return (b, c)

/-- `int d` and `int e` of `Localtime`. -/
def yearPart (c : ℤ) : Except IntFault (ℤ × ℤ) := do
  let d ← divInt (← addInt (← mulInt c 4) 3) kMagicUnkonwnSec
  let e ← mulInt (← negInt d) kMagicUnkonwnSec
  let e ← addInt (← divInt e 4) c
  return (d, e)

/-- `int m` and `tm_mday` of `Localtime`. -/
def monthPart (e : ℤ) : Except IntFault (ℤ × ℤ) := do
  let m ← divInt (← addInt (← mulInt 5 e) 2) kDaysFromYear
  let mday ← addInt (← addInt
    (← divInt (← negInt (← addInt (← mulInt kDaysFromYear m) 2)) 5) e) 1
  return (m, mday)

/-- `tm_mon` of `Localtime`. -/
def monPart (m : ℤ) : Except IntFault ℤ := do
  addInt (← addInt (← mulInt (← divInt (← negInt m) 10) 12) m) 2

/-- `tm_year` of `Localtime`. -/
def yearSum (b d m : ℤ) : Except IntFault ℤ := do
  addInt (← subInt (← addInt (← mulInt b 100) d) 6700) (← divInt m 10)

/-- `Localtime`. The operands of `unix_sec` are 64-bit. -/
def localtime (unixSec : ℤ) : Except IntFault Tm := do
  let sec := castInt (unixSec.tmod kMinutesInHour)
  let i := castInt (unixSec.tdiv kMinutesInHour)
  let min ← modInt i kMinutesInHour
  let i ← divInt i kMinutesInHour
  let hour ← modInt (← addInt i 8) kHoursInDay
  let mday ← divInt (← addInt i 8) kHoursInDay
  let a ← addInt mday kDaysFromUnixTime
  let (b, c) ← centuryPart a
  let (d, e) ← yearPart c
  let (m, mday) ← monthPart e
  let mon ← monPart m
  let year ← yearSum b d m
  return { sec, min, hour, mday, mon, year }

end ServerKit
