import Mathlib.Data.Nat.Basic

/-!
# The Gregorian calendar

The rule of leap years is applied to every year, and days are numbered from 1 January of
the year 0 on, a Saturday.
-/

namespace IteSdk.Lib

def IsLeap (year : Nat) : Prop := year % 4 = 0 ∧ (year % 100 ≠ 0 ∨ year % 400 = 0)
deriving Decidable

def leapDay (year : Nat) : Nat := if IsLeap year then 1 else 0

def monthDays (year month : Nat) : Nat :=
  if month = 2 then 28 + leapDay year
  else if month = 4 ∨ month = 6 ∨ month = 9 ∨ month = 11 then 30
  else 31

/-- The months are numbered from 1 on. -/
def daysBeforeMonth (year : Nat) : Nat → Nat
  | 0 => 0
  | 1 => 0
  | month + 2 => daysBeforeMonth year (month + 1) + monthDays year (month + 1)

def daysBeforeYear : Nat → Nat
  | 0 => 0
  | year + 1 => daysBeforeYear year + daysBeforeMonth year 13

structure Date where
  year : Nat
  month : Nat
  day : Nat

namespace Date

def Valid (date : Date) : Prop :=
  (1 ≤ date.month ∧ date.month ≤ 12) ∧ 1 ≤ date.day ∧ date.day ≤ monthDays date.year date.month

def number (date : Date) : Nat :=
  daysBeforeYear date.year + daysBeforeMonth date.year date.month + (date.day - 1)

/-- Sunday is 0. -/
def weekday (date : Date) : Nat := (date.number + 6) % 7

end Date

theorem leapDay_cases (year : Nat) :
    (year % 4 = 0 ∧ (year % 100 ≠ 0 ∨ year % 400 = 0)) ∧ leapDay year = 1 ∨
      ¬(year % 4 = 0 ∧ (year % 100 ≠ 0 ∨ year % 400 = 0)) ∧ leapDay year = 0 := by
  by_cases leap : IsLeap year
  · exact .inl ⟨leap, if_pos leap⟩
  · exact .inr ⟨leap, if_neg leap⟩

theorem daysBeforeYear_succ (year : Nat) :
    daysBeforeYear (year + 1) = daysBeforeYear year + (365 + leapDay year) := by
  rw [daysBeforeYear]
  simp [daysBeforeMonth, monthDays]
  omega

theorem daysBeforeYear_eq (year : Nat) :
    daysBeforeYear year = 365 * year + (year + 3) / 4 + (year + 399) / 400 - (year + 99) / 100 := by
  induction year with
  | zero => rfl
  | succ year ih =>
    have leap := leapDay_cases year
    rw [daysBeforeYear_succ, ih]
    omega

theorem monthDays_bounds (year month : Nat) :
    28 ≤ monthDays year month ∧ monthDays year month ≤ 31 := by
  have leap := leapDay_cases year
  unfold monthDays
  split
  · omega
  · split <;> omega

end IteSdk.Lib
