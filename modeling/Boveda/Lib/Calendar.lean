/-
# Dates of the Gregorian calendar

The dates of the years 1 to 9999, as `datetime` of Python has them: a date is a year, a
month and a day, and stands for its ordinal, 1 January of year 1 being day 1, a Monday.
`ofOrdinal` counts in cycles of 400, 100, 4 and 1 years (`toOrdinal_ofOrdinal`);
`isocalendar` is the ISO year and week.

A `Datetime` is a date with the microseconds since midnight; all of them are in one time
zone.  Two indices put months and weeks in a row: `monthIndex`, which grows with the ordinal
(`monthIndex_mono`), and `weekIndex`, which two dates share exactly when they share the ISO
year and week (`isocalendar_eq_iff`).
-/

import Mathlib.Tactic.Common
import Mathlib.Tactic.IntervalCases
import Mathlib.Tactic.Ring
import Mathlib.Data.Int.Notation
import Mathlib.Order.Basic

namespace Boveda
namespace Lib

namespace Calendar

/-- `_is_leap`. -/
def isLeap (year : ℤ) : Bool := year % 4 = 0 ∧ (year % 100 ≠ 0 ∨ year % 400 = 0)

/-- `_days_before_year`: the days before 1 January of the year. -/
def daysBeforeYear (year : ℤ) : ℤ :=
  (year - 1) * 365 + (year - 1) / 4 - (year - 1) / 100 + (year - 1) / 400

/-- `_DAYS_BEFORE_MONTH`, for a year that is not a leap year. -/
def daysBeforeMonthTable (month : ℤ) : ℤ :=
  [0, 31, 59, 90, 120, 151, 181, 212, 243, 273, 304, 334].getD (month - 1).toNat 0

/-- `_days_before_month`. -/
def daysBeforeMonth (year month : ℤ) : ℤ :=
  daysBeforeMonthTable month + if 2 < month ∧ isLeap year then 1 else 0

/-- `_days_in_month`. -/
def daysInMonth (year month : ℤ) : ℤ :=
  if month = 2 ∧ isLeap year then 29
  else [31, 28, 31, 30, 31, 30, 31, 31, 30, 31, 30, 31].getD (month - 1).toNat 0

/-- The year, the month and the day of an ordinal: `_ord2ymd`. -/
def ord2ymd (ordinal : ℤ) : ℤ × ℤ × ℤ :=
  let n := ordinal - 1
  let n400 := n / 146097
  let n := n % 146097
  let n100 := n / 36524
  let n := n % 36524
  let n4 := n / 1461
  let n := n % 1461
  let n1 := n / 365
  let n := n % 365
  let year := n400 * 400 + 1 + (n100 * 100 + n4 * 4 + n1)
  if n1 = 4 ∨ n100 = 4 then (year - 1, 12, 31)
  else
    let month := (n + 50) / 32
    if n < daysBeforeMonth year month then
      (year, month - 1, n - daysBeforeMonth year (month - 1) + 1)
    else (year, month, n - daysBeforeMonth year month + 1)

/-- `_check_date_fields`. -/
def Valid (year month day : ℤ) : Prop :=
  (1 ≤ year ∧ year ≤ 9999) ∧ (1 ≤ month ∧ month ≤ 12) ∧ 1 ≤ day ∧ day ≤ daysInMonth year month

instance (year month day : ℤ) : Decidable (Valid year month day) :=
  inferInstanceAs (Decidable (_ ∧ _))

end Calendar

open Calendar

/-- A date. -/
structure Date where
  year : ℤ
  month : ℤ
  day : ℤ
  valid : Valid year month day
  deriving DecidableEq

namespace Date

/-- `date(year, month, day)`; `none` is its `ValueError`. -/
def ofYmd (year month day : ℤ) : Option Date :=
  if valid : Valid year month day then some { year, month, day, valid } else none

/-- `toordinal`. -/
def toOrdinal (d : Date) : ℤ := daysBeforeYear d.year + daysBeforeMonth d.year d.month + d.day

/-- `fromordinal`; `none` is an ordinal out of range. -/
def ofOrdinal (ordinal : ℤ) : Option Date :=
  let (year, month, day) := ord2ymd ordinal
  ofYmd year month day

/-- `_isoweek1monday`: the Monday of the first ISO week of the year. -/
def isoweek1monday (year : ℤ) : ℤ :=
  let firstday := daysBeforeYear year + 1
  let firstweekday := (firstday + 6) % 7
  let week1monday := firstday - firstweekday
  if 3 < firstweekday then week1monday + 7 else week1monday

/-- The first two values of `isocalendar`. -/
def isocalendar (d : Date) : ℤ × ℤ :=
  let week := (d.toOrdinal - isoweek1monday d.year) / 7
  if week < 0 then
    (d.year - 1, (d.toOrdinal - isoweek1monday (d.year - 1)) / 7 + 1)
  else if 52 ≤ week ∧ isoweek1monday (d.year + 1) ≤ d.toOrdinal then (d.year + 1, 1)
  else (d.year, week + 1)

/-- The months, in a row. -/
def monthIndex (d : Date) : ℤ := 12 * d.year + d.month

/-- The weeks from Monday to Sunday, in a row. -/
def weekIndex (d : Date) : ℤ := (d.toOrdinal - 1) / 7

end Date

/-- A date and the microseconds since midnight. -/
structure Datetime where
  date : Date
  micros : ℕ
  micros_lt : micros < 86400000000
  deriving DecidableEq

namespace Datetime

/-- The microseconds that the order of datetimes compares. -/
def total (t : Datetime) : ℤ := t.date.toOrdinal * 86400000000 + t.micros

/-- `t - timedelta(days=n)`; `none` is its `OverflowError`. -/
def minusDays (t : Datetime) (n : ℕ) : Option Datetime :=
  (Date.ofOrdinal (t.date.toOrdinal - n)).map fun date => { t with date }

end Datetime

namespace Calendar

variable {year month day : ℤ}

theorem daysBeforeYear_succ (year : ℤ) :
    daysBeforeYear (year + 1) = daysBeforeYear year + 365 + if isLeap year then 1 else 0 := by
  unfold daysBeforeYear isLeap
  split_ifs with h <;> simp only [decide_eq_true_eq] at h <;> omega

theorem daysBeforeYear_mono {year year' : ℤ} (h : year ≤ year') :
    daysBeforeYear year ≤ daysBeforeYear year' := by
  unfold daysBeforeYear
  omega

theorem daysBeforeMonth_succ (hlow : 1 ≤ month) (hhigh : month ≤ 11) :
    daysBeforeMonth year (month + 1) = daysBeforeMonth year month + daysInMonth year month := by
  unfold daysBeforeMonth daysInMonth daysBeforeMonthTable
  interval_cases month <;> cases isLeap year <;> rfl

theorem daysBeforeMonth_twelve :
    daysBeforeMonth year 12 + daysInMonth year 12 = 365 + if isLeap year then 1 else 0 := by
  unfold daysBeforeMonth daysInMonth daysBeforeMonthTable
  cases isLeap year <;> rfl

theorem daysInMonth_pos (hlow : 1 ≤ month) (hhigh : month ≤ 12) : 28 ≤ daysInMonth year month := by
  unfold daysInMonth
  interval_cases month <;> cases isLeap year <;> decide

theorem daysInMonth_le (hlow : 1 ≤ month) (hhigh : month ≤ 12) : daysInMonth year month ≤ 31 := by
  unfold daysInMonth
  interval_cases month <;> cases isLeap year <;> decide

theorem daysBeforeMonth_add_le {month' : ℤ} (hlow : 1 ≤ month) (hlt : month < month')
    (hhigh : month' ≤ 12) :
    daysBeforeMonth year month + daysInMonth year month ≤ daysBeforeMonth year month' := by
  induction month', hlt using Int.leInduction with
  | base => exact (daysBeforeMonth_succ hlow (by omega)).ge
  | succ m hm ih =>
    have hpos : 28 ≤ daysInMonth year m := daysInMonth_pos (by omega) (by omega)
    rw [daysBeforeMonth_succ (by omega) (by omega)]
    have := ih (by omega)
    omega

theorem daysBeforeMonth_nonneg (hlow : 1 ≤ month) (hhigh : month ≤ 12) :
    0 ≤ daysBeforeMonth year month := by
  unfold daysBeforeMonth daysBeforeMonthTable
  interval_cases month <;> cases isLeap year <;> decide

/-- A valid day is in its year. -/
theorem ordinal_mem_year (hmonth : 1 ≤ month ∧ month ≤ 12)
    (hday : 1 ≤ day ∧ day ≤ daysInMonth year month) :
    daysBeforeYear year < daysBeforeYear year + daysBeforeMonth year month + day ∧
      daysBeforeYear year + daysBeforeMonth year month + day ≤ daysBeforeYear (year + 1) := by
  have hfirst : 0 ≤ daysBeforeMonth year month := daysBeforeMonth_nonneg hmonth.1 hmonth.2
  have hlast : daysBeforeMonth year month + day ≤
      daysBeforeMonth year 12 + daysInMonth year 12 := by
    rcases hmonth.2.lt_or_eq with hlt | rfl
    · have hle : daysBeforeMonth year month + daysInMonth year month ≤ daysBeforeMonth year 12 :=
        daysBeforeMonth_add_le hmonth.1 hlt le_rfl
      have hdecember : 28 ≤ daysInMonth year 12 := daysInMonth_pos (by decide) (by decide)
      omega
    · exact Int.add_le_add_left hday.2 _
  rw [daysBeforeMonth_twelve] at hlast
  have hsucc := daysBeforeYear_succ year
  constructor <;> omega

/-- The years before, by cycles. -/
theorem daysBeforeYear_cycles (n400 : ℤ) {n100 n4 n1 : ℤ} (h100 : 0 ≤ n100 ∧ n100 ≤ 3)
    (h4 : 0 ≤ n4 ∧ n4 ≤ 24) (h1 : 0 ≤ n1 ∧ n1 ≤ 3) :
    daysBeforeYear (n400 * 400 + 1 + (n100 * 100 + n4 * 4 + n1)) =
      n400 * 146097 + n100 * 36524 + n4 * 1461 + n1 * 365 := by
  unfold daysBeforeYear
  omega

/-- Of a day of the year, `(n + 50) / 32` is the month or the one after. -/
theorem month_of_dayOfYear {n : ℤ} (hlow : 0 ≤ n) (hhigh : n ≤ 364) (year : ℤ) :
    ∃ month, (month = if n < daysBeforeMonth year ((n + 50) / 32) then (n + 50) / 32 - 1
        else (n + 50) / 32) ∧ (1 ≤ month ∧ month ≤ 12) ∧ daysBeforeMonth year month ≤ n ∧
      n < daysBeforeMonth year month + daysInMonth year month := by
  refine ⟨_, rfl, ?_⟩
  have hmonth : 1 ≤ (n + 50) / 32 ∧ (n + 50) / 32 ≤ 12 := by omega
  generalize hm : (n + 50) / 32 = month at hmonth
  obtain ⟨h1, h12⟩ := hmonth
  unfold daysBeforeMonth daysInMonth daysBeforeMonthTable
  cases isLeap year <;> interval_cases month <;> simp <;> split_ifs <;> simp <;> omega

/-- **`_ord2ymd` finds the date** that has the ordinal. -/
theorem ord2ymd_spec (ordinal : ℤ) : ∃ year month day, ord2ymd ordinal = (year, month, day) ∧
    (1 ≤ month ∧ month ≤ 12) ∧ (1 ≤ day ∧ day ≤ daysInMonth year month) ∧
    daysBeforeYear year + daysBeforeMonth year month + day = ordinal := by
  have hdivMod (n m : ℤ) (hm : 0 < m) : n = n / m * m + n % m ∧ 0 ≤ n % m ∧ n % m < m :=
    ⟨(Int.ediv_mul_add_emod n m).symm, Int.emod_nonneg n hm.ne', Int.emod_lt_of_pos n hm⟩
  unfold ord2ymd
  dsimp only
  generalize hn : ordinal - 1 = n
  have h400 := hdivMod n 146097 (by decide)
  generalize n / 146097 = n400, n % 146097 = r400 at *
  have h100 := hdivMod r400 36524 (by decide)
  generalize r400 / 36524 = n100, r400 % 36524 = r100 at *
  have h4 := hdivMod r100 1461 (by decide)
  generalize r100 / 1461 = n4, r100 % 1461 = r4 at *
  have h1 := hdivMod r4 365 (by decide)
  generalize r4 / 365 = n1, r4 % 365 = r1 at *
  by_cases hlast : n1 = 4 ∨ n100 = 4
  · -- 31 December, at the end of a cycle
    rw [if_pos hlast]
    have hend : daysBeforeYear (n400 * 400 + 1 + (n100 * 100 + n4 * 4 + n1)) = ordinal := by
      rcases hlast with rfl | rfl
      · rw [show n400 * 400 + 1 + (n100 * 100 + n4 * 4 + 4) =
            n400 * 400 + 1 + (n100 * 100 + (n4 + 1) * 4 + 0) by ring,
          daysBeforeYear_cycles _ (by omega) (by omega) (by omega)]
        omega
      · obtain ⟨rfl, rfl⟩ : n4 = 0 ∧ n1 = 0 := by omega
        rw [show n400 * 400 + 1 + (4 * 100 + 0 * 4 + 0) =
            (n400 + 1) * 400 + 1 + (0 * 100 + 0 * 4 + 0) by ring,
          daysBeforeYear_cycles _ (by omega) (by omega) (by omega)]
        omega
    generalize n400 * 400 + 1 + (n100 * 100 + n4 * 4 + n1) = year at *
    have hsucc := daysBeforeYear_succ (year - 1)
    rw [sub_add_cancel, hend, add_assoc, ← daysBeforeMonth_twelve, ← add_assoc] at hsucc
    exact ⟨year - 1, 12, 31, rfl, by decide, ⟨by decide, le_refl 31⟩, hsucc.symm⟩
  · rw [if_neg hlast]
    obtain ⟨h1', h100'⟩ := not_or.1 hlast
    have hyear : daysBeforeYear (n400 * 400 + 1 + (n100 * 100 + n4 * 4 + n1)) =
        n400 * 146097 + n100 * 36524 + n4 * 1461 + n1 * 365 :=
      daysBeforeYear_cycles n400 (by omega) (by omega) (by omega)
    generalize n400 * 400 + 1 + (n100 * 100 + n4 * 4 + n1) = year at *
    obtain ⟨month, hmonth, hrange, hlow, hhigh⟩ := month_of_dayOfYear h1.2.1 (by omega) year
    refine ⟨year, month, r1 - daysBeforeMonth year month + 1, ?_, hrange, by omega, by omega⟩
    subst hmonth
    split_ifs <;> rfl

end Calendar

namespace Date

variable {a b d : Date}

theorem ofYmd_some {year month day : ℤ} (h : ofYmd year month day = some d) :
    d.year = year ∧ d.month = month ∧ d.day = day := by
  unfold ofYmd at h
  split_ifs at h
  obtain rfl := Option.some.inj h
  exact ⟨rfl, rfl, rfl⟩

/-- **The round trip** of an ordinal. -/
theorem toOrdinal_of_ofOrdinal {ordinal : ℤ} (h : ofOrdinal ordinal = some d) :
    d.toOrdinal = ordinal := by
  obtain ⟨year, month, day, hymd, -, -, hordinal⟩ := ord2ymd_spec ordinal
  rw [ofOrdinal, hymd] at h
  obtain ⟨rfl, rfl, rfl⟩ := ofYmd_some h
  exact hordinal

/-- The days of the years 1 to 9999 are dates. -/
theorem exists_ofOrdinal {ordinal : ℤ} (hlow : 1 ≤ ordinal) (hhigh : ordinal ≤ 3652059) :
    ∃ d, ofOrdinal ordinal = some d := by
  obtain ⟨year, month, day, hymd, hmonth, hday, hordinal⟩ := ord2ymd_spec ordinal
  obtain ⟨hafter, hbefore⟩ := ordinal_mem_year hmonth hday
  rw [hordinal] at hafter hbefore
  have hyear : 1 ≤ year ∧ year ≤ 9999 := by
    constructor
    · by_contra hlt
      have := daysBeforeYear_mono (show year + 1 ≤ 1 by omega)
      exact absurd (hbefore.trans this) (Int.not_le.2 hlow)
    · by_contra hlt
      have := daysBeforeYear_mono (show 10000 ≤ year by omega)
      exact absurd (this.trans_lt hafter) (Int.not_lt.2 hhigh)
  rw [ofOrdinal, hymd]
  exact ⟨_, dif_pos ⟨hyear, hmonth, hday⟩⟩

/-- The ordinals of a year. -/
theorem toOrdinal_mem (d : Date) :
    daysBeforeYear d.year < d.toOrdinal ∧ d.toOrdinal ≤ daysBeforeYear (d.year + 1) :=
  ordinal_mem_year d.valid.2.1 d.valid.2.2

/-- **The months are in the order of the days.** -/
theorem monthIndex_mono (h : a.toOrdinal ≤ b.toOrdinal) : a.monthIndex ≤ b.monthIndex := by
  obtain ⟨-, hmonth, hday⟩ := a.valid
  obtain ⟨-, hmonth', hday'⟩ := b.valid
  by_contra hlt
  unfold monthIndex at hlt
  have hyear : b.year ≤ a.year := by omega
  rcases hyear.lt_or_eq with hyear | hyear
  · have hyears := daysBeforeYear_mono (Int.add_one_le_of_lt hyear)
    exact absurd (b.toOrdinal_mem.2.trans hyears) (Int.not_le.2 (a.toOrdinal_mem.1.trans_le h))
  · have hmonths : daysBeforeMonth b.year b.month + daysInMonth b.year b.month ≤
        daysBeforeMonth b.year a.month :=
      daysBeforeMonth_add_le hmonth'.1 (by omega) hmonth.2
    unfold toOrdinal at h
    rw [hyear] at hmonths hday' h
    omega

theorem toOrdinal_injective : Function.Injective toOrdinal := by
  intro a b h
  have hmonths := le_antisymm (monthIndex_mono h.le) (monthIndex_mono h.ge)
  obtain ⟨-, hmonth, -⟩ := a.valid
  obtain ⟨-, hmonth', -⟩ := b.valid
  unfold monthIndex at hmonths
  obtain ⟨hyear, hmonth⟩ : a.year = b.year ∧ a.month = b.month := by omega
  unfold toOrdinal at h
  rw [hyear, hmonth] at h
  have hday : a.day = b.day := by omega
  cases a
  cases b
  simp only [mk.injEq]
  exact ⟨hyear, hmonth, hday⟩

/-- **Dates are in the order of their days**, field by field. -/
theorem toOrdinal_lt_iff : a.toOrdinal < b.toOrdinal ↔
    a.year < b.year ∨ a.year = b.year ∧
      (a.month < b.month ∨ a.month = b.month ∧ a.day < b.day) := by
  obtain ⟨-, hmonth, -⟩ := a.valid
  obtain ⟨-, hmonth', -⟩ := b.valid
  have hlt : a.monthIndex < b.monthIndex → a.toOrdinal < b.toOrdinal := fun h =>
    not_le.1 fun hle => absurd (monthIndex_mono hle) (not_le.2 h)
  have hgt : b.monthIndex < a.monthIndex → b.toOrdinal < a.toOrdinal := fun h =>
    not_le.1 fun hle => absurd (monthIndex_mono hle) (not_le.2 h)
  have heq : a.year = b.year → a.month = b.month →
      (a.toOrdinal < b.toOrdinal ↔ a.day < b.day) := by
    intro hyear hmonth
    unfold toOrdinal
    rw [hyear, hmonth]
    omega
  unfold monthIndex at hlt hgt
  omega

theorem weekIndex_mono (h : a.toOrdinal ≤ b.toOrdinal) : a.weekIndex ≤ b.weekIndex :=
  Int.ediv_le_ediv (by decide) (Int.sub_le_sub_right h 1)

/-- A year starts at most three days from the Monday of its first ISO week. -/
theorem isoweek1monday_spec (year : ℤ) : isoweek1monday year % 7 = 1 ∧
    daysBeforeYear year - 2 ≤ isoweek1monday year ∧
    isoweek1monday year ≤ daysBeforeYear year + 4 := by
  unfold isoweek1monday
  generalize daysBeforeYear year = n
  dsimp only
  split_ifs <;> omega

/-- **The ISO week** of a date: the weeks of its ISO year contain the date. -/
theorem isocalendar_spec (d : Date) : isoweek1monday d.isocalendar.1 ≤ d.toOrdinal ∧
    d.toOrdinal < isoweek1monday (d.isocalendar.1 + 1) ∧
    d.isocalendar.2 = (d.toOrdinal - isoweek1monday d.isocalendar.1) / 7 + 1 := by
  obtain ⟨hafter, hbefore⟩ := d.toOrdinal_mem
  obtain ⟨hmonday, hlow, hhigh⟩ := isoweek1monday_spec d.year
  obtain ⟨hmonday₁, hlow₁, hhigh₁⟩ := isoweek1monday_spec (d.year - 1)
  obtain ⟨hmonday₂, hlow₂, hhigh₂⟩ := isoweek1monday_spec (d.year + 1)
  obtain ⟨hmonday₃, hlow₃, hhigh₃⟩ := isoweek1monday_spec (d.year + 1 + 1)
  have hsucc₁ := daysBeforeYear_succ (d.year - 1)
  have hsucc := daysBeforeYear_succ d.year
  have hsucc₂ := daysBeforeYear_succ (d.year + 1)
  rw [Int.sub_add_cancel] at hsucc₁
  unfold isocalendar
  dsimp only
  split_ifs with hbeforeFirst hafterLast
  · dsimp only
    rw [Int.sub_add_cancel]
    refine ⟨?_, ?_, rfl⟩ <;> omega
  · dsimp only
    refine ⟨hafterLast.2, ?_, ?_⟩ <;> omega
  · dsimp only
    refine ⟨?_, ?_, rfl⟩ <;> omega

/-- The first ISO weeks are in the order of the years. -/
theorem isoweek1monday_mono {year year' : ℤ} (h : year ≤ year') :
    isoweek1monday year ≤ isoweek1monday year' := by
  rcases h.lt_or_eq with hlt | rfl
  · have hyears := daysBeforeYear_mono (Int.add_one_le_of_lt hlt)
    have hsucc := daysBeforeYear_succ year
    obtain ⟨-, hlow, hhigh⟩ := isoweek1monday_spec year
    obtain ⟨-, hlow', hhigh'⟩ := isoweek1monday_spec year'
    omega
  · exact le_rfl

/-- Two dates with the same `weekIndex` have the same ISO year. -/
theorem isoYear_le (h : a.weekIndex = b.weekIndex) : a.isocalendar.1 ≤ b.isocalendar.1 := by
  obtain ⟨hlow, -, -⟩ := a.isocalendar_spec
  obtain ⟨-, hhigh, -⟩ := b.isocalendar_spec
  by_contra hlt
  have hyears := isoweek1monday_mono (Int.add_one_le_of_lt (Int.not_le.1 hlt))
  obtain ⟨hmonday, -, -⟩ := isoweek1monday_spec (b.isocalendar.1 + 1)
  unfold weekIndex at h
  omega

/-- **ISO weeks are the weeks from Monday to Sunday.** -/
theorem isocalendar_eq_iff : a.isocalendar = b.isocalendar ↔ a.weekIndex = b.weekIndex := by
  obtain ⟨-, -, hweek⟩ := a.isocalendar_spec
  obtain ⟨-, -, hweek'⟩ := b.isocalendar_spec
  obtain ⟨hmonday, -, -⟩ := isoweek1monday_spec b.isocalendar.1
  constructor
  · intro h
    rw [h] at hweek
    unfold weekIndex
    omega
  · intro h
    have hyear : a.isocalendar.1 = b.isocalendar.1 :=
      le_antisymm (isoYear_le h) (isoYear_le h.symm)
    refine Prod.ext hyear ?_
    rw [hweek, hweek', hyear]
    unfold weekIndex at h
    omega

/-- The first month of year 1 is month 13. -/
theorem monthIndex_ge (d : Date) : 13 ≤ d.monthIndex := by
  obtain ⟨⟨hyear, -⟩, ⟨hmonth, -⟩, -⟩ := d.valid
  unfold monthIndex
  omega

/-- From December of year 1 on, there are 334 days before. -/
theorem toOrdinal_gt_of_monthIndex (h : 24 ≤ d.monthIndex) : 334 < d.toOrdinal := by
  obtain ⟨⟨hyear, -⟩, ⟨hmonth, hmonth'⟩, hday, -⟩ := d.valid
  have hmonths : 0 ≤ daysBeforeMonth d.year d.month := daysBeforeMonth_nonneg hmonth hmonth'
  unfold monthIndex at h
  unfold toOrdinal
  rcases hyear.eq_or_lt with hone | hlt
  · have htwelve : d.month = 12 := by omega
    rw [← hone, htwelve]
    exact lt_of_lt_of_le (by decide) (Int.add_le_add_left hday _)
  · have hyears := daysBeforeYear_mono (Int.add_one_le_of_lt hlt)
    have htwo : daysBeforeYear (1 + 1) = 365 := rfl
    omega

example : (ofYmd 2021 1 3).map isocalendar = some (2020, 53) := by decide

end Date

namespace Datetime

theorem total_injective : Function.Injective total := by
  intro a b h
  have ha := a.micros_lt
  have hb := b.micros_lt
  unfold total at h
  obtain ⟨hdate, hmicros⟩ : a.date.toOrdinal = b.date.toOrdinal ∧ a.micros = b.micros := by omega
  cases a
  cases b
  simp only [mk.injEq]
  exact ⟨Date.toOrdinal_injective hdate, hmicros⟩

/-- Datetimes are in the order of time. -/
instance : LinearOrder Datetime where
  le a b := a.total ≤ b.total
  le_refl a := Int.le_refl a.total
  le_trans a b c := Int.le_trans
  le_antisymm a b hab hba := total_injective (Int.le_antisymm hab hba)
  le_total a b := Int.le_total a.total b.total
  toDecidableLE a b := Int.decLe a.total b.total

variable {a b t : Datetime}

theorem toOrdinal_le (h : a ≤ b) : a.date.toOrdinal ≤ b.date.toOrdinal := by
  have hle : a.total ≤ b.total := h
  have ha := a.micros_lt
  have hb := b.micros_lt
  unfold total at hle
  omega

theorem total_minusDays {n : ℕ} (h : a.minusDays n = some b) :
    b.total = a.total - n * 86400000000 := by
  obtain ⟨date, hdate, rfl⟩ := Option.map_eq_some_iff.1 h
  unfold total
  rw [Date.toOrdinal_of_ofOrdinal hdate]
  ring

theorem toOrdinal_minusDays {n : ℕ} (h : a.minusDays n = some b) :
    b.date.toOrdinal = a.date.toOrdinal - n := by
  obtain ⟨date, hdate, rfl⟩ := Option.map_eq_some_iff.1 h
  exact Date.toOrdinal_of_ofOrdinal hdate

theorem exists_minusDays {n : ℕ} (h : n < t.date.toOrdinal) : ∃ t', t.minusDays n = some t' := by
  have hlast : daysBeforeYear (t.date.year + 1) ≤ daysBeforeYear 10000 :=
    daysBeforeYear_mono (Int.add_le_add_right t.date.valid.1.2 1)
  have hmax : daysBeforeYear 10000 = 3652059 := rfl
  have hordinal := t.date.toOrdinal_mem.2
  obtain ⟨date, hdate⟩ := Date.exists_ofOrdinal
    (show 1 ≤ t.date.toOrdinal - n by omega) (by omega)
  exact ⟨{ t with date }, by rw [minusDays, hdate, Option.map_some]⟩

end Datetime

end Lib
end Boveda
