/-! # Calendar dates

Days of the Gregorian calendar, which is taken to hold for all years, the year
zero and negative ones included. A `Date` carries the proof that the day exists.
-/

namespace DoubleEntry

namespace Calendar

/-- Every fourth year is a leap year, of the full centuries only every fourth. -/
def isLeap (year : Int) : Bool := year % 4 = 0 ∧ (year % 100 ≠ 0 ∨ year % 400 = 0)

/-- How many days a month has; there are none in a month that does not exist. -/
def daysIn (year : Int) (month : Nat) : Nat :=
  match month with
  | 1 | 3 | 5 | 7 | 8 | 10 | 12 => 31
  | 4 | 6 | 9 | 11 => 30
  | 2 => if isLeap year then 29 else 28
  | _ => 0

theorem daysIn_le (year : Int) (month : Nat) : daysIn year month ≤ 31 := by
  have february : (if isLeap year then 29 else 28) ≤ 31 := by split <;> decide
  unfold daysIn
  split <;> first | exact february | decide

theorem month_of_daysIn {year : Int} {month : Nat} (h : 0 < daysIn year month) :
    1 ≤ month ∧ month ≤ 12 := by
  unfold daysIn at h
  split at h <;> omega

end Calendar

structure Date where
  year : Int
  month : Nat
  day : Nat
  valid : 1 ≤ day ∧ day ≤ Calendar.daysIn year month
  deriving Repr, DecidableEq

namespace Date

def ofParts? (year : Int) (month day : Nat) : Option Date :=
  if h : 1 ≤ day ∧ day ≤ Calendar.daysIn year month then some ⟨year, month, day, h⟩ else none

/-- The number that the digits of a date spell. Later days have greater keys. -/
def key (d : Date) : Int := d.year * 10000 + d.month * 100 + d.day

instance : LE Date := ⟨fun a b => a.key ≤ b.key⟩

instance (a b : Date) : Decidable (a ≤ b) := inferInstanceAs (Decidable (a.key ≤ b.key))

theorem le_refl (a : Date) : a ≤ a := Int.le_refl a.key

theorem le_trans {a b c : Date} (hab : a ≤ b) (hbc : b ≤ c) : a ≤ c := Int.le_trans hab hbc

theorem le_total (a b : Date) : a ≤ b ∨ b ≤ a := Int.le_total a.key b.key

theorem month_bounds (d : Date) : 1 ≤ d.month ∧ d.month ≤ 12 :=
  Calendar.month_of_daysIn (Nat.le_trans d.valid.1 d.valid.2)

theorem day_bounds (d : Date) : 1 ≤ d.day ∧ d.day ≤ 31 :=
  ⟨d.valid.1, Nat.le_trans d.valid.2 (Calendar.daysIn_le d.year d.month)⟩

/-- A day can be told from its key, since months and days take two digits. -/
theorem le_antisymm {a b : Date} (hab : a ≤ b) (hba : b ≤ a) : a = b := by
  have hkey : a.key = b.key := Int.le_antisymm hab hba
  have := a.month_bounds
  have := a.day_bounds
  have := b.month_bounds
  have := b.day_bounds
  obtain ⟨year, month, day, valid⟩ := a
  obtain ⟨year', month', day', valid'⟩ := b
  simp only [key] at *
  obtain ⟨rfl, rfl, rfl⟩ : year = year' ∧ month = month' ∧ day = day' := by omega
  rfl

def padded (width n : Nat) : List Char := (Nat.toDigits 10 n).leftpad width '0'

/-- A year in four digits. Years that need more, or that lie before the year
    zero, carry a sign. -/
def yearChars (year : Int) : List Char :=
  if year < 0 then '-' :: padded 4 year.natAbs
  else if 9999 < year then '+' :: padded 4 year.natAbs
  else padded 4 year.natAbs

/-- The year and the month of a day, as in `2020-05`. -/
def monthText (d : Date) : String :=
  String.ofList (yearChars d.year ++ '-' :: padded 2 d.month)

/-- A day as text, as in `2020-05-07`. -/
def text (d : Date) : String :=
  d.monthText ++ String.ofList ('-' :: padded 2 d.day)

/-- Read a date of the form `2020-05-07`. -/
def ofText? : List Char → Option Date
  | [y₁, y₂, y₃, y₄, '-', m₁, m₂, '-', d₁, d₂] =>
    if [y₁, y₂, y₃, y₄, m₁, m₂, d₁, d₂].all Char.isDigit then
      ofParts? (Nat.ofDigitChars 10 [y₁, y₂, y₃, y₄] 0 : Nat) (Nat.ofDigitChars 10 [m₁, m₂] 0)
        (Nat.ofDigitChars 10 [d₁, d₂] 0)
    else none
  | _ => none

end Date

end DoubleEntry
