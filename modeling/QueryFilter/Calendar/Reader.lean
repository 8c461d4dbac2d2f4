import QueryFilter.Calendar.Instant
import QueryFilter.Decimal.Power
import QueryFilter.Text.Blank

/-!
# Reading instants

Four forms are tried in turn:

- the full form, with an offset from universal time: two digits (four for the year) in every place,
  `T`, `t` or a blank between date and time, a fraction of any length, and `Z`, `z` or `+hh:mm`;
- a date and a time of day with seconds, without offset;
- a date and a time of day without seconds;
- a date alone.

The numbers of the last three may have fewer digits and blanks in front, and their years a sign.
-/

namespace QueryFilter.Calendar

open Decimal

/-- A number of at least `least` and at most `most` digits at the beginning of a text, and the
rest. -/
def number? (least most : Nat) (cs : List Char) : Option (Nat × List Char) :=
  let digits := (cs.take most).takeWhile isDigit
  if digits.length < least then none
  else some (digitsValue 0 digits, cs.drop digits.length)

/-- The rest of a text after a given character. -/
def after? (c : Char) : List Char → Option (List Char)
  | [] => none
  | d :: cs => if d = c then some cs else none

/-- A number of exactly two digits. -/
def twoDigits? : List Char → Option (Nat × List Char) :=
  number? 2 2

/-! ### The full form -/

/-- The nanoseconds of digits after a point: nine of them count. -/
def fractionValue (digits : List Char) : Nat :=
  digitsValue 0 (digits.take 9) * tenPow (9 - digits.length)

/-- A fraction of a second, if a point is there. -/
def nanosecond? : List Char → Option (Nat × List Char)
  | '.' :: cs =>
    let digits := cs.takeWhile isDigit
    if digits.isEmpty then none else some (fractionValue digits, cs.dropWhile isDigit)
  | cs => some (0, cs)

/-- Hours and minutes as minutes; the minutes are below sixty, the hours below twenty-four. -/
def offsetValue? (cs : List Char) : Option (Nat × List Char) := do
  let (hours, cs) ← twoDigits? cs
  let cs ← after? ':' cs
  let (minutes, cs) ← twoDigits? cs
  if hours < 24 ∧ minutes < 60 then some (60 * hours + minutes, cs) else none

/-- The minutes that a local time is ahead of universal time.  The minus sign may be a hyphen or the
character U+2212. -/
def offset? : List Char → Option (Int × List Char)
  | [] => none
  | c :: cs =>
    if c = 'Z' ∨ c = 'z' then some (0, cs)
    else if c = '+' then (offsetValue? cs).map fun (minutes, rest) => ((minutes : Int), rest)
    else if c = '-' ∨ c = Char.ofNat 0x2212 then
      (offsetValue? cs).map fun (minutes, rest) => (-(minutes : Int), rest)
    else none

/-- An instant in the full form. -/
def fullForm? (cs : List Char) : Option Instant := do
  let (year, cs) ← number? 4 4 cs
  let cs ← after? '-' cs
  let (month, cs) ← twoDigits? cs
  let cs ← after? '-' cs
  let (day, cs) ← twoDigits? cs
  let cs ← (after? 'T' cs).or ((after? 't' cs).or (after? ' ' cs))
  let (hour, cs) ← twoDigits? cs
  let cs ← after? ':' cs
  let (minute, cs) ← twoDigits? cs
  let cs ← after? ':' cs
  let (second, cs) ← twoDigits? cs
  let (nanosecond, cs) ← nanosecond? cs
  let (ahead, cs) ← offset? cs
  let date ← Date.ofFields? year month day
  let time ← TimeOfDay.ofFields? hour minute second nanosecond
  if cs.isEmpty then some (.atOffset date time ahead) else none

/-! ### The forms without offset -/

/-- A number of one or two digits, after any blanks. -/
def looseNumber? (cs : List Char) : Option (Nat × List Char) :=
  number? 1 2 (Text.dropBlanks cs)

/-- A year, after any blanks: up to four digits, or a sign and any number of them. -/
def looseYear? (cs : List Char) : Option (Int × List Char) :=
  match Text.dropBlanks cs with
  | '-' :: rest => (number? 1 rest.length rest).map fun (n, rest) => (-(n : Int), rest)
  | '+' :: rest => (number? 1 rest.length rest).map fun (n, rest) => ((n : Int), rest)
  | rest => (number? 1 4 rest).map fun (n, rest) => ((n : Int), rest)

/-- A date at the beginning of a text, and the rest. -/
def looseDate? (cs : List Char) : Option (Date × List Char) := do
  let (year, cs) ← looseYear? cs
  let cs ← after? '-' cs
  let (month, cs) ← looseNumber? cs
  let cs ← after? '-' cs
  let (day, cs) ← looseNumber? cs
  let date ← Date.ofFields? year month day
  return (date, cs)

/-- A date and a time of day, with or without seconds. -/
def localForm? (withSeconds : Bool) (cs : List Char) : Option Instant := do
  let (date, cs) ← looseDate? cs
  let cs ← after? 'T' cs
  let (hour, cs) ← looseNumber? cs
  let cs ← after? ':' cs
  let (minute, cs) ← looseNumber? cs
  let (second, cs) ←
    if withSeconds then (after? ':' cs).bind looseNumber? else some (0, cs)
  let time ← TimeOfDay.ofFields? hour minute second 0
  if cs.isEmpty then some ⟨date, time⟩ else none

/-- A date alone, as the instant at which it begins. -/
def dateForm? (cs : List Char) : Option Instant :=
  (looseDate? cs).bind fun (date, rest) => if rest.isEmpty then some (.startOf date) else none

/-- The instant that a text stands for, apart from blanks at its ends. -/
def Instant.parse? (s : String) : Option Instant :=
  let cs := Text.trimChars s.toList
  (fullForm? cs).or ((localForm? true cs).or ((localForm? false cs).or (dateForm? cs)))

end QueryFilter.Calendar
