import QueryFilter.Decimal.Literal
import QueryFilter.Json.Basic

/-!
# The text of a JSON value

The compact form: no blanks, keys in their order, and of the characters only the quotation mark, the
backslash and the control characters below U+0020 escaped.  Integers are written with their digits,
doubles as `Decimal.Double.text` does.
-/

namespace QueryFilter

/-- The text of a number. -/
def Number.text : Number → String
  | .integer value => Decimal.intText value
  | .double value => value.text

namespace Json

/-- A hexadecimal digit, in lower case. -/
def lowerHexDigit (n : Nat) : Char :=
  Char.ofNat (if n < 10 then 0x30 + n else 0x57 + n)

/-- A character as it stands between quotation marks. -/
def escapeChar (c : Char) : List Char :=
  if c = '"' then ['\\', '"']
  else if c = '\\' then ['\\', '\\']
  else if c = '\x08' then ['\\', 'b']
  else if c = '\x0c' then ['\\', 'f']
  else if c = '\n' then ['\\', 'n']
  else if c = '\r' then ['\\', 'r']
  else if c = '\t' then ['\\', 't']
  else if c.toNat < 0x20 then
    ['\\', 'u', '0', '0', lowerHexDigit (c.toNat / 16), lowerHexDigit (c.toNat % 16)]
  else [c]

/-- A text between quotation marks. -/
def quote (s : String) : String :=
  "\"" ++ String.ofList (s.toList.flatMap escapeChar) ++ "\""

mutual

/-- The text of a value. -/
def text : Json → String
  | .null => "null"
  | .bool true => "true"
  | .bool false => "false"
  | .number n => n.text
  | .string s => quote s
  | .array items => "[" ++ itemsText items ++ "]"
  | .object entries => "\x7b" ++ entriesText entries ++ "\x7d"

/-- The texts of values, with commas between them. -/
def itemsText : List Json → String
  | [] => ""
  | [item] => text item
  | item :: items => text item ++ "," ++ itemsText items

/-- The texts of keys and values, with commas between them. -/
def entriesText : List (String × Json) → String
  | [] => ""
  | [(key, value)] => quote key ++ ":" ++ text value
  | (key, value) :: rest => quote key ++ ":" ++ text value ++ "," ++ entriesText rest

end

/-- The text of a value where a plain text is asked for: a string stands for itself, null for the
empty text, and any other value for its JSON text. -/
def plainText : Json → String
  | .string s => s
  | .null => ""
  | value => value.text

/-! ### Small lemmas -/

@[simp] theorem plainText_string (s : String) : plainText (.string s) = s := rfl

@[simp] theorem plainText_null : plainText .null = "" := rfl

@[simp] theorem plainText_bool (b : Bool) :
    plainText (.bool b) = if b then "true" else "false" := by
  cases b <;> rfl

@[simp] theorem plainText_number (n : Number) : plainText (.number n) = n.text := rfl

end Json

end QueryFilter
