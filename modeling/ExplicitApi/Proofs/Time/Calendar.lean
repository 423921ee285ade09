import ExplicitApi.Time.Calendar
import Mathlib.Tactic.IntervalCases

/-!
Day numbers and dates. Main statements: the date of a day number is one of the calendar, and its day
number is the one it was made from.
-/
namespace ExplicitApi.Time.Date

/-- A day lies between the first ones of its year and of the next, when years begin with March. -/
theorem between_firstDays {n y : Int} (h : 0 ≤ n ∧ n < 146097)
    (hy : y = (n - n / 1460 + n / 36524 - n / 146096) / 365) :
    y * 365 + y / 4 - y / 100 ≤ n ∧
      n < (y + 1) * 365 + (y + 1) / 4 - (y + 1) / 100 + (y + 1) / 400 := by
  by_cases hlast : n = 146096
  · subst hlast
    have hyear : y = 399 := hy
    subst hyear
    decide
  · have hrest : n / 146096 = 0 := by omega
    rw [hrest] at hy
    have hcentury : y / 100 = n / 36524 := by omega
    have hlow : y / 4 ≤ n / 1460 := by omega
    have hhigh : n / 1460 ≤ (y + 1) / 4 := by omega
    have hnext : (y + 1) / 100 = y / 100 ∨ y + 1 = 100 * (y / 100 + 1) := by omega
    refine ⟨by omega, ?_⟩
    rcases hnext with hsame | hturn
    · omega
    · omega

theorem daysInMonth_le (year : Int) (month : Nat) : daysInMonth year month ≤ 31 := by
  unfold daysInMonth
  split
  · split <;> decide
  · decide
  · decide
  · decide
  · decide
  · decide

theorem isLeapYear_iff {year : Int} :
    isLeapYear year = true ↔ year % 4 = 0 ∧ (year % 100 ≠ 0 ∨ year % 400 = 0) := by
  simp [isLeapYear]

theorem isLeapYear_add (year era : Int) : isLeapYear (year + era * 400) = isLeapYear year := by
  rw [Bool.eq_iff_iff, isLeapYear_iff, isLeapYear_iff]
  omega

/-- Only a leap year is that far from the next. -/
theorem isLeapYear_of_between {y d : Int} (hy : 0 ≤ y ∧ y < 400)
    (hend : y * 365 + y / 4 - y / 100 + d <
      (y + 1) * 365 + (y + 1) / 4 - (y + 1) / 100 + (y + 1) / 400) :
    d ≤ 364 ∨ d = 365 ∧ isLeapYear (y + 1) = true := by
  have hfour : (y + 1) / 4 = y / 4 ∨ (y + 1) / 4 = y / 4 + 1 ∧ (y + 1) % 4 = 0 := by omega
  have hhundred : (y + 1) / 100 = y / 100 ∧ (y + 1) % 100 ≠ 0 ∨
      (y + 1) / 100 = y / 100 + 1 ∧ (y + 1) % 100 = 0 := by omega
  have hturn : (y + 1) / 400 = 0 ∧ (y + 1) % 400 ≠ 0 ∨ (y + 1) / 400 = 1 ∧ y = 399 := by omega
  rw [isLeapYear_iff]
  rcases hfour with hfour | hfour <;> rcases hhundred with hhundred | hhundred <;>
    rcases hturn with hturn | hturn <;> omega

/-- The 400 years that a day is in, the year of them and its day, when years begin with March. -/
structure Parts (days : Int) where
  era : Int
  year : Int
  dayOfYear : Nat
  year_nonneg : 0 ≤ year
  year_lt : year < 400
  days_eq : days = era * 146097 + (year * 365 + year / 4 - year / 100 + dayOfYear) - 719468
  /-- Only a year that ends with a leap day has a last day of this number. -/
  dayOfYear_le : dayOfYear ≤ 364 ∨ dayOfYear = 365 ∧ isLeapYear (year + 1) = true

namespace Parts

variable {days : Int}

def date (p : Parts days) : Date :=
  let month := (5 * p.dayOfYear + 2) / 153
  let day := p.dayOfYear - daysBeforeMonth month + 1
  let year := p.year + p.era * 400
  if month < 10 then ⟨year, month + 3, day⟩ else ⟨year + 1, month - 9, day⟩

/-- A day number is taken apart as its date is made. -/
theorem exists_date_eq (days : Int) : ∃ p : Parts days, ofDays days = p.date := by
  obtain ⟨era, hera⟩ : ∃ era, era = (days + 719468) / 146097 := ⟨_, rfl⟩
  obtain ⟨n, hn⟩ : ∃ n, n = days + 719468 - era * 146097 := ⟨_, rfl⟩
  obtain ⟨y, hy⟩ : ∃ y, y = (n - n / 1460 + n / 36524 - n / 146096) / 365 := ⟨_, rfl⟩
  obtain ⟨d, hd⟩ : ∃ d, d = (n - (365 * y + y / 4 - y / 100)).toNat := ⟨_, rfl⟩
  have hday : 0 ≤ n ∧ n < 146097 := by omega
  have hyear : 0 ≤ y ∧ y < 400 := by omega
  have hdate : ofDays days =
      if (5 * d + 2) / 153 < 10 then
        ⟨y + era * 400, (5 * d + 2) / 153 + 3, d - daysBeforeMonth ((5 * d + 2) / 153) + 1⟩
      else ⟨y + era * 400 + 1, (5 * d + 2) / 153 - 9,
        d - daysBeforeMonth ((5 * d + 2) / 153) + 1⟩ := by
    subst hd hy hn hera
    rfl
  obtain ⟨hlow, hhigh⟩ := between_firstDays hday hy
  have hnumber : (d : Int) = n - (365 * y + y / 4 - y / 100) := by
    rw [hd]
    exact Int.toNat_of_nonneg (by omega)
  have hlast : d ≤ 364 ∨ d = 365 ∧ isLeapYear (y + 1) = true := by
    rcases isLeapYear_of_between (d := d) hyear (by omega) with hle | ⟨heq, hleap⟩
    · exact .inl (by omega)
    · exact .inr ⟨by omega, hleap⟩
  exact ⟨⟨era, y, d, hyear.1, hyear.2, by omega, hlast⟩, hdate⟩

theorem toDays_date (p : Parts days) : p.date.toDays = days := by
  obtain ⟨era, y, d, hnonneg, hlt, hdays, hlast⟩ := p
  have hd : d ≤ 365 := by omega
  unfold date
  dsimp only
  split
  · next hmonth =>
    have hyear : ¬ (5 * d + 2) / 153 + 3 ≤ 2 := by omega
    have hback : ((5 * d + 2) / 153 + 3 + 9) % 12 = (5 * d + 2) / 153 := by omega
    have hbefore : daysBeforeMonth ((5 * d + 2) / 153) ≤ d := by
      unfold daysBeforeMonth
      omega
    simp only [toDays, hyear, if_false, hback]
    omega
  · next hmonth =>
    have hyear : (5 * d + 2) / 153 - 9 ≤ 2 := by omega
    have hback : ((5 * d + 2) / 153 - 9 + 9) % 12 = (5 * d + 2) / 153 := by omega
    have hbefore : daysBeforeMonth ((5 * d + 2) / 153) ≤ d := by
      unfold daysBeforeMonth
      omega
    simp only [toDays, hyear, if_true, hback]
    omega

theorem isValid_date (p : Parts days) : p.date.IsValid := by
  obtain ⟨era, y, d, hnonneg, hlt, hdays, hlast⟩ := p
  have hlast' : d ≤ 364 ∨ d = 365 ∧ isLeapYear (y + era * 400 + 1) = true := by
    rwa [show y + era * 400 + 1 = y + 1 + era * 400 by omega, isLeapYear_add]
  obtain ⟨m, hm⟩ : ∃ m, m = (5 * d + 2) / 153 := ⟨_, rfl⟩
  have hm' : m < 12 := by omega
  unfold date
  dsimp only
  rw [← hm]
  interval_cases m
  -- February is the last month, and the only one that depends on the year
  case «11» =>
    change 1 ≤ 2 ∧ 2 ≤ 12 ∧ 1 ≤ d - 337 + 1 ∧
      d - 337 + 1 ≤ if isLeapYear (y + era * 400 + 1) = true then 29 else 28
    refine ⟨by decide, by decide, Nat.le_add_left 1 _, ?_⟩
    rcases hlast' with hle | ⟨hd, hleap⟩
    · split_ifs <;> omega
    · rw [if_pos hleap]
      omega
  all_goals
    simp [IsValid, daysBeforeMonth, daysInMonth]
    omega

theorem year_date (p : Parts days) :
    p.date.year = p.year + p.era * 400 ∨ p.date.year = p.year + p.era * 400 + 1 := by
  unfold date
  dsimp only
  split
  · exact .inl rfl
  · exact .inr rfl

end Parts

/-- A day number is that of its date. -/
theorem toDays_ofDays (days : Int) : (ofDays days).toDays = days := by
  obtain ⟨p, hp⟩ := Parts.exists_date_eq days
  rw [hp, p.toDays_date]

/-- The date of a day number is one of the calendar. -/
theorem isValid_ofDays (days : Int) : (ofDays days).IsValid := by
  obtain ⟨p, hp⟩ := Parts.exists_date_eq days
  rw [hp]
  exact p.isValid_date

theorem year_ofDays_bounds {days : Int} (h : -100000000 ≤ days ∧ days ≤ 100000000) :
    -300000 ≤ (ofDays days).year ∧ (ofDays days).year ≤ 300000 := by
  obtain ⟨p, hp⟩ := Parts.exists_date_eq days
  rw [hp]
  have hdate := p.year_date
  have hfirst := p.days_eq
  have hyear := p.year_nonneg
  have hyear' := p.year_lt
  have hday := p.dayOfYear_le
  omega

end ExplicitApi.Time.Date
