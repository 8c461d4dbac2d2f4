import QueryFilter.Calendar.Date
import QueryFilter.Decimal.Power

/-!
# Instants

An instant is a date and a time of day in universal time, to the nanosecond.  A leap second is the
second with the number 60, after any minute.

`Instant.atOffset` moves a local time to universal time: offsets are shorter than a day, so that the
date changes by one day at most.
-/

namespace QueryFilter.Calendar

/-- A time of day. -/
structure TimeOfDay where
  hour : Nat
  minute : Nat
  second : Nat
  nanosecond : Nat
  hour_lt : hour < 24
  minute_lt : minute < 60
  second_le : second ≤ 60
  nanosecond_lt : nanosecond < Decimal.tenPow 9
  deriving DecidableEq

namespace TimeOfDay

/-- The time of an hour, a minute, a second and a nanosecond, if there is one. -/
def ofFields? (hour minute second nanosecond : Nat) : Option TimeOfDay :=
  if h : hour < 24 ∧ minute < 60 ∧ second ≤ 60 ∧ nanosecond < Decimal.tenPow 9 then
    some ⟨hour, minute, second, nanosecond, h.1, h.2.1, h.2.2.1, h.2.2.2⟩
  else none

/-- The beginning of a day. -/
def midnight : TimeOfDay :=
  ⟨0, 0, 0, 0, by decide, by decide, by decide, by decide⟩

/-- The minutes since midnight. -/
def minuteOfDay (t : TimeOfDay) : Nat :=
  60 * t.hour + t.minute

/-- The same second of another minute of the day. -/
def withMinuteOfDay (t : TimeOfDay) (minutes : Nat) (h : minutes < 1440) : TimeOfDay :=
  { t with
    hour := minutes / 60
    minute := minutes % 60
    hour_lt := by omega
    minute_lt := Nat.mod_lt _ (by decide) }

/-- Hour, minute, second and millisecond; what is shorter than a millisecond is left out. -/
def chars (t : TimeOfDay) : List Char :=
  Date.padded 2 t.hour ++ ':' :: Date.padded 2 t.minute ++ ':' :: Date.padded 2 t.second ++
    '.' :: Date.padded 3 (t.nanosecond / Decimal.tenPow 6)

end TimeOfDay

/-- A date and a time of day in universal time. -/
structure Instant where
  date : Date
  time : TimeOfDay
  deriving DecidableEq

namespace Instant

/-- The instant of a date and a time of day that is the given number of minutes ahead of universal
time. -/
def atOffset (date : Date) (time : TimeOfDay) (ahead : Int) : Instant :=
  let minutes := (time.minuteOfDay : Int) - ahead
  let day := if minutes < 0 then date.prev else if minutes < 1440 then date else date.next
  ⟨day, time.withMinuteOfDay (minutes % 1440).toNat (by omega)⟩

/-- The beginning of a date. -/
def startOf (date : Date) : Instant :=
  ⟨date, .midnight⟩

/-- The text of an instant, such as `2024-03-01T10:30:00.000Z`. -/
def text (i : Instant) : String :=
  String.ofList (i.date.chars ++ 'T' :: i.time.chars ++ ['Z'])

/-- The shortest text that keeps the time: the date alone at the beginning of a day. -/
def shortText (i : Instant) : String :=
  if i.time = .midnight then i.date.text else i.text

/-! ### Small lemmas -/

/-- The start of a day is shown as the day alone. -/
@[simp] theorem shortText_startOf (date : Date) : (startOf date).shortText = date.text := by
  simp [shortText, startOf]

end Instant

end QueryFilter.Calendar
