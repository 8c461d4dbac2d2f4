import QueryFilter.Text.Utf8

/-!
# Percent escapes

Octets are written as `%XX`, with upper case hexadecimal digits.  Two alphabets of characters stay
as they are: the unreserved characters of a URI component (`encode`), and the smaller alphabet of
form texts, where a blank becomes `+` (`encodeForm`).

Reading leaves a `%` alone that no two hexadecimal digits follow.
-/

namespace QueryFilter.Text.Percent

/-- The hexadecimal digit, in upper case, of a number below sixteen. -/
def hexDigit (n : Nat) : Char :=
  Char.ofNat (if n < 10 then 0x30 + n else 0x37 + n)

/-- The value of a hexadecimal digit of either case. -/
def hexValue? (c : Char) : Option Nat :=
  if '0' ≤ c ∧ c ≤ '9' then some (c.toNat - 0x30)
  else if 'A' ≤ c ∧ c ≤ 'F' then some (c.toNat - 0x37)
  else if 'a' ≤ c ∧ c ≤ 'f' then some (c.toNat - 0x57)
  else none

/-- The escape of one octet. -/
def escapeOctet (b : Nat) : List Char :=
  ['%', hexDigit (b / 16), hexDigit (b % 16)]

/-- Whether a character is an ASCII letter or digit. -/
def isAlphanumeric (c : Char) : Bool :=
  ('0' ≤ c && c ≤ '9') || ('A' ≤ c && c ≤ 'Z') || ('a' ≤ c && c ≤ 'z')

/-- The unreserved characters of a URI component. -/
def isUnreserved (c : Char) : Bool :=
  isAlphanumeric c || c == '-' || c == '_' || c == '.' || c == '~'

/-- The characters that a form text keeps. -/
def isFormSafe (c : Char) : Bool :=
  isAlphanumeric c || c == '*' || c == '-' || c == '.' || c == '_'

/-- The octets of a character as escapes. -/
def escapeChar (c : Char) : List Char :=
  (Utf8.encodeChar c).flatMap escapeOctet

/-- A text as a URI component. -/
def encode (cs : List Char) : List Char :=
  cs.flatMap fun c => if isUnreserved c then [c] else escapeChar c

/-- A text as a form text. -/
def encodeForm (cs : List Char) : List Char :=
  cs.flatMap fun c => if isFormSafe c then [c] else if c = ' ' then ['+'] else escapeChar c

/-- The octets that a text with escapes stands for. -/
def octets : List Char → List Nat
  | '%' :: a :: b :: cs =>
    match hexValue? a, hexValue? b with
    | some high, some low => (high * 16 + low) :: octets cs
    | _, _ => 0x25 :: octets (a :: b :: cs)
  | c :: cs => Utf8.encodeChar c ++ octets cs
  | [] => []

/-- The text that escapes stand for, if their octets are well-formed. -/
def decode (cs : List Char) : Option (List Char) :=
  Utf8.decodeStrict (octets cs)

/-- A text with a blank for every plus sign. -/
def plusToBlank (cs : List Char) : List Char :=
  cs.map fun c => if c = '+' then ' ' else c

/-- The text that a form text stands for; octets that no character has are replaced. -/
def decodeForm (cs : List Char) : List Char :=
  Utf8.decodeLossy (octets (plusToBlank cs))

/-! ### Small lemmas -/

@[simp] theorem encode_nil : encode [] = [] := rfl

/-- No characters stand for no octets. -/
@[simp] theorem octets_nil : octets [] = [] := by
  simp [octets]

/-- No characters are decoded to the empty text. -/
@[simp] theorem decode_nil : decode [] = some [] := by
  simp [decode]

end QueryFilter.Text.Percent
