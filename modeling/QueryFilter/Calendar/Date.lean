import QueryFilter.Decimal.Literal

/-!
# Calendar dates

Dates of the Gregorian calendar, carried on to years before its adoption.  A `Date` has a month and
a day that exist; `next` and `prev` go to the neighbouring day and undo each other.
-/

namespace QueryFilter.Calendar

/-- Whether a year has a 29th of February. -/
def isLeap (year : Int) : Bool :=
  year % 4 = 0 && (year % 100 ≠ 0 || year % 400 = 0)

/-- The number of days of a month. -/
def daysIn (year : Int) (month : Nat) : Nat :=
  if month = 2 then (if isLeap year then 29 else 28)
  else if month = 4 ∨ month = 6 ∨ month = 9 ∨ month = 11 then 30
  else 31

/-- A day of the calendar. -/
structure Date where
  year : Int
  month : Nat
  day : Nat
  month_pos : 1 ≤ month
  month_le : month ≤ 12
  day_pos : 1 ≤ day
  day_le : day ≤ daysIn year month
  deriving DecidableEq

/-- Every month has a day. -/
theorem one_le_daysIn (year : Int) (month : Nat) : 1 ≤ daysIn year month := by
  unfold daysIn
  split
  · split <;> omega
  · split <;> omega

namespace Date

/-- The years that a date may be read in. -/
def leastYear : Int := -262143

/-- The last year that a date may be read in. -/
def greatestYear : Int := 262142

/-- The date of a year, a month and a day, if there is one. -/
def ofFields? (year : Int) (month day : Nat) : Option Date :=
  if h : leastYear ≤ year ∧ year ≤ greatestYear ∧ 1 ≤ month ∧ month ≤ 12 ∧ 1 ≤ day ∧
      day ≤ daysIn year month then
    some ⟨year, month, day, h.2.2.1, h.2.2.2.1, h.2.2.2.2.1, h.2.2.2.2.2⟩
  else none

/-- The day after. -/
def next (d : Date) : Date :=
  if h : d.day < daysIn d.year d.month then
    { d with day := d.day + 1, day_pos := by omega, day_le := h }
  else if hm : d.month < 12 then
    ⟨d.year, d.month + 1, 1, by omega, hm, Nat.le_refl 1, one_le_daysIn _ _⟩
  else
    ⟨d.year + 1, 1, 1, Nat.le_refl 1, by decide, Nat.le_refl 1, one_le_daysIn _ _⟩

/-- The day before. -/
def prev (d : Date) : Date :=
  if h : 1 < d.day then
    { d with
      day := d.day - 1
      day_pos := by omega
      day_le := Nat.le_trans (Nat.sub_le _ _) d.day_le }
  else if hm : 1 < d.month then
    ⟨d.year, d.month - 1, daysIn d.year (d.month - 1), by omega,
      Nat.le_trans (Nat.sub_le _ _) d.month_le, one_le_daysIn _ _, Nat.le_refl _⟩
  else
    ⟨d.year - 1, 12, 31, by decide, by decide, by decide, by simp [daysIn]⟩

/-- A natural with zeros in front, so that it has at least `width` digits. -/
def padded (width n : Nat) : List Char :=
  let digits := Nat.toDigits 10 n
  List.replicate (width - digits.length) '0' ++ digits

/-- A year: four digits from 0 to 9999, and a sign with four digits or more for any other. -/
def yearText (year : Int) : List Char :=
  if 0 ≤ year ∧ year ≤ 9999 then padded 4 year.toNat
  else (if year < 0 then '-' else '+') :: padded 4 year.natAbs

/-- Year, month and day with hyphens between them. -/
def chars (d : Date) : List Char :=
  yearText d.year ++ '-' :: padded 2 d.month ++ '-' :: padded 2 d.day

/-- The text of a date, such as `2024-03-01`. -/
def text (d : Date) : String :=
  String.ofList d.chars

/-! ### Small lemmas -/

/-- A date is made of its own fields, if its year is in range. -/
@[simp] theorem ofFields?_self (d : Date) (h : leastYear ≤ d.year) (h' : d.year ≤ greatestYear) :
    ofFields? d.year d.month d.day = some d := by
  have := d.month_pos
  have := d.month_le
  have := d.day_pos
  have := d.day_le
  simp [ofFields?, *]

end Date

end QueryFilter.Calendar
