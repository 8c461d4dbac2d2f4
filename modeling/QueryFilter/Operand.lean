import QueryFilter.Calendar.Reader
import QueryFilter.Json.Basic

/-!
# Operands

What a user types beside an operator is a text.  This file reads such texts as numbers, instants and
truth values, and says how an instant is shown again.
-/

namespace QueryFilter.Operand

/-- A number: an integer of 64 bits if the text is one, else the nearest finite double. -/
def number? (raw : String) : Option Number :=
  let cs := Text.trimChars raw.toList
  match Decimal.int64? cs with
  | some i => some (.integer i)
  | none => (Decimal.double? cs).map .double

/-- The full text of the instant that a text stands for. -/
def instantText? (raw : String) : Option String :=
  (Calendar.Instant.parse? raw).map Calendar.Instant.text

/-- The date of the instant that a text stands for; the time of day is left out. -/
def dateText? (raw : String) : Option String :=
  (Calendar.Instant.parse? raw).map fun instant => instant.date.text

/-- The instant that a text stands for as it is shown to the user: the date alone at the beginning
of a day, the full text otherwise. -/
def shownText? (raw : String) : Option String :=
  (Calendar.Instant.parse? raw).map Calendar.Instant.shortText

/-- A truth value. -/
def bool? (raw : String) : Option Bool :=
  let text := Text.trim raw
  if text = "true" then some true
  else if text = "false" then some false
  else none

end QueryFilter.Operand
