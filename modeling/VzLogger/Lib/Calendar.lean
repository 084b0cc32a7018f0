import Mathlib.Data.Int.Basic
import Mathlib.Tactic.IntervalCases

/-! # Calendar

The Gregorian calendar in days since 1 January 1970, and the broken-down time of the C
library in UTC: `localtime` of a count of seconds, and `mktime`, which also takes fields
outside their ranges.  `localtime_seconds` says that the two fit together, and
`lastSunday` is the last Sunday of a month.
-/
namespace Calendar

/-! ## Years -/

/-- The first of January. -/
def yearStart (y : Int) : Int :=
  365 * y + (y + 3) / 4 - (y + 99) / 100 + (y + 399) / 400 - 719528

def isLeap (y : Int) : Bool := y % 4 = 0 ∧ (y % 100 ≠ 0 ∨ y % 400 = 0)

def yearLength (leap : Bool) : Nat := if leap then 366 else 365

/-- The year of a day: by the length of 400 years, and one more or less. -/
def yearOf (d : Int) : Int :=
  let y := 400 * (d + 719528) / 146097
  if d < yearStart y then y - 1
  else if yearStart (y + 1) ≤ d then y + 1
  else y

theorem yearStart_succ (y : Int) :
    yearStart (y + 1) = yearStart y + yearLength (isLeap y) := by
  unfold yearStart yearLength isLeap
  by_cases h : y % 4 = 0 ∧ (y % 100 ≠ 0 ∨ y % 400 = 0)
  · rw [if_pos (by simpa using h)]
    omega
  · rw [if_neg (by simpa using h)]
    omega

theorem yearStart_mono {y z : Int} (h : y ≤ z) : yearStart y ≤ yearStart z := by
  unfold yearStart
  omega

theorem yearOf_spec (d : Int) : yearStart (yearOf d) ≤ d ∧ d < yearStart (yearOf d + 1) := by
  unfold yearOf
  dsimp only
  generalize hy : 400 * (d + 719528) / 146097 = y
  split
  · rw [Int.sub_add_cancel]
    unfold yearStart at *
    omega
  · split
    · unfold yearStart at *
      omega
    · omega

theorem yearOf_eq {d y : Int} (h : yearStart y ≤ d) (h' : d < yearStart (y + 1)) :
    yearOf d = y := by
  obtain ⟨hlo, hhi⟩ := yearOf_spec d
  rcases Int.lt_trichotomy (yearOf d) y with hlt | heq | hgt
  · have := yearStart_mono (show yearOf d + 1 ≤ y by omega)
    omega
  · exact heq
  · have := yearStart_mono (show y + 1 ≤ yearOf d by omega)
    omega

/-! ## Months -/

def monthLengths (leap : Bool) : List Nat :=
  [31, if leap then 29 else 28, 31, 30, 31, 30, 31, 31, 30, 31, 30, 31]

/-- The day of the year a month, counted from 0, starts on. -/
def monthStart (leap : Bool) (m : Nat) : Nat := ((monthLengths leap).take m).sum

/-- The month of a day of the year. -/
def monthOf (leap : Bool) (doy : Nat) : Nat :=
  ((List.range 11).takeWhile fun m => monthStart leap (m + 1) ≤ doy).length

theorem monthOf_monthStart (leap : Bool) : ∀ m < 12, ∀ d < (monthLengths leap).getD m 0,
    monthOf leap (monthStart leap m + d) = m := by
  cases leap <;> decide

theorem monthStart_add_lt (leap : Bool) : ∀ m < 12, ∀ d < (monthLengths leap).getD m 0,
    monthStart leap m + d < yearLength leap := by
  cases leap <;> decide

/-- The `mday`-th day of a month. -/
def dayOf (y : Int) (m : Nat) (mday : Int) : Int :=
  yearStart y + monthStart (isLeap y) m + (mday - 1)

/-- Sunday is 0. -/
def weekday (d : Int) : Int := (d + 4) % 7

/-- The last Sunday of a month. -/
def lastSunday (y : Int) (m : Nat) : Int :=
  let last := dayOf y m ((monthLengths (isLeap y)).getD m 0)
  last - weekday last

theorem lastSunday_spec (y : Int) (m : Nat) :
    weekday (lastSunday y m) = 0 ∧
      lastSunday y m ≤ dayOf y m ((monthLengths (isLeap y)).getD m 0) ∧
      dayOf y m ((monthLengths (isLeap y)).getD m 0) < lastSunday y m + 7 := by
  unfold lastSunday
  dsimp only
  generalize dayOf y m ((monthLengths (isLeap y)).getD m 0) = last
  unfold weekday
  omega

/-- The last Sunday, from the day a week before the end of the month. -/
theorem lastSunday_eq {y : Int} {m len : Nat} (h : (monthLengths (isLeap y)).getD m 0 = len) :
    dayOf y m ((len - 7 : Int) + (7 - weekday (dayOf y m (len - 7)))) = lastSunday y m := by
  unfold lastSunday
  rw [h]
  unfold dayOf weekday
  dsimp only
  omega

/-! ## Broken-down time -/

/-- `struct tm`: the year counts from 1900, the month from 0. -/
structure Tm where
  sec : Int
  min : Int
  hour : Int
  mday : Int
  mon : Int
  year : Int
  wday : Int
  deriving DecidableEq, Repr

/-- The seconds up to a time of day. -/
def seconds (day hour min sec : Int) : Int := day * 86400 + hour * 3600 + min * 60 + sec

def localtime (t : Int) : Tm :=
  let day := t / 86400
  let s := t % 86400
  let y := yearOf day
  let doy := (day - yearStart y).toNat
  let m := monthOf (isLeap y) doy
  ⟨s % 60, s / 60 % 60, s / 3600, (doy : Int) - monthStart (isLeap y) m + 1, m, y - 1900, weekday day⟩

/-- The time of fields that need not be within their ranges; `tm_wday` is not looked at. -/
def timeOf (tm : Tm) : Int :=
  seconds (dayOf (tm.year + 1900 + tm.mon / 12) (tm.mon % 12).toNat tm.mday) tm.hour tm.min tm.sec

/-- `mktime`: the time, and the fields brought into their ranges. -/
def mktime (tm : Tm) : Int × Tm := (timeOf tm, localtime (timeOf tm))

theorem seconds_div (day : Int) {hour min sec : Int} (hh : 0 ≤ hour ∧ hour < 24) (hm : 0 ≤ min ∧ min < 60)
    (hs : 0 ≤ sec ∧ sec < 60) : seconds day hour min sec / 86400 = day := by
  unfold seconds
  omega

/-- The day within its month. -/
theorem yearOf_dayOf {y : Int} {m : Nat} (hm : m < 12) {mday : Int} (hlo : 1 ≤ mday)
    (hhi : mday ≤ (monthLengths (isLeap y)).getD m 0) : yearOf (dayOf y m mday) = y := by
  have hlt := monthStart_add_lt (isLeap y) m hm (mday - 1).toNat (by omega)
  have hsucc := yearStart_succ y
  unfold dayOf
  apply yearOf_eq <;> omega

/-- **The fields of a time are those it was made from.** -/
theorem localtime_seconds {y : Int} {m : Nat} (hm : m < 12) {mday : Int} (hlo : 1 ≤ mday)
    (hhi : mday ≤ (monthLengths (isLeap y)).getD m 0) {hour min sec : Int}
    (hh : 0 ≤ hour ∧ hour < 24) (hmin : 0 ≤ min ∧ min < 60) (hs : 0 ≤ sec ∧ sec < 60) :
    localtime (seconds (dayOf y m mday) hour min sec) =
      ⟨sec, min, hour, mday, m, y - 1900, weekday (dayOf y m mday)⟩ := by
  have hday := seconds_div (dayOf y m mday) hh hmin hs
  have hyear := yearOf_dayOf hm hlo hhi
  have hdoy : (dayOf y m mday - yearStart y).toNat =
      monthStart (isLeap y) m + (mday - 1).toNat := by
    unfold dayOf
    omega
  have hmonth := monthOf_monthStart (isLeap y) m hm (mday - 1).toNat (by omega)
  unfold localtime
  simp only [hday, hyear, hdoy, hmonth]
  unfold seconds
  congr 1 <;> push_cast <;> omega

end Calendar
