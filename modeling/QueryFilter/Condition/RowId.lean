import QueryFilter.Condition.Basic
import QueryFilter.Decimal.Literal
import QueryFilter.Text.Percent
import QueryFilter.Text.Split

/-!
# Texts of identities

An identity is written with 32 hexadecimal digits, either all together or in groups of 8, 4, 4, 4
and 12 with hyphens between them.  The grouped form may stand in braces or after `urn:uuid:`.
-/

namespace QueryFilter

/-- Why a text is no identity. -/
inductive RowIdFault where
  /-- A character that no identity has, and its place. -/
  | character (c : Char) (place : Nat)
  /-- Digits without hyphens, but not 32 of them. -/
  | length (found : Nat)
  /-- Hyphens, but not four of them. -/
  | groupCount (found : Nat)
  /-- A group that is too short or too long. -/
  | groupLength (group expected found : Nat)
  deriving DecidableEq, Repr

/-- The message for a fault. -/
def RowIdFault.message : RowIdFault → String
  | .character c place =>
    "invalid character: found `" ++ String.singleton c ++ "` at " ++ Decimal.natText place
  | .length found => "invalid length: found " ++ Decimal.natText found
  | .groupCount found => "invalid group count: expected 5, found " ++ Decimal.natText found
  | .groupLength group expected found =>
    "invalid group length in group " ++ Decimal.natText group ++ ": expected " ++
      Decimal.natText expected ++ ", found " ++ Decimal.natText found

namespace RowId

/-- The lengths of the groups. -/
def groupLengths : List Nat :=
  [8, 4, 4, 4, 12]

/-- The text without what may stand around the grouped form, and how long that is in front; the
third part says whether anything was there. -/
def unwrap (cs : List Char) : List Char × Nat × Bool :=
  match cs with
  | '\x7b' :: rest =>
    if rest.getLast? = some '\x7d' then (rest.dropLast, 1, true) else (cs, 0, false)
  | 'u' :: 'r' :: 'n' :: ':' :: 'u' :: 'u' :: 'i' :: 'd' :: ':' :: rest => (rest, 9, true)
  | _ => (cs, 0, false)

/-- The number of hexadecimal digits. -/
def hexValue (digits : List Char) : Nat :=
  digits.foldl (fun n c => 16 * n + (Text.Percent.hexValue? c).getD 0) 0

/-- So many hexadecimal digits, in lower case, at the end of a number. -/
def hexDigits : Nat → Nat → List Char
  | 0, _ => []
  | count + 1, n => hexDigits count (n / 16) ++ [(Text.Percent.hexDigit (n % 16)).toLower]

/-- The first digits in groups of given lengths. -/
def grouped : List Nat → List Char → List (List Char)
  | [], _ => []
  | length :: lengths, digits => digits.take length :: grouped lengths (digits.drop length)

/-- The grouped text of an identity. -/
def text (id : RowId) : String :=
  Text.joinWith "-" ((grouped groupLengths (hexDigits 32 id.value)).map String.ofList)

/-- The number of octets of a text. -/
def octetCount (cs : List Char) : Nat :=
  (Text.Utf8.encode cs).length

/-- The first character that is neither a hexadecimal digit nor a hyphen, and its place in octets.
-/
def strayFrom (place : Nat) : List Char → Option (Char × Nat)
  | [] => none
  | c :: cs =>
    if c = '-' ∨ (Text.Percent.hexValue? c).isSome then
      strayFrom (place + (Text.Utf8.encodeChar c).length) cs
    else some (c, place)

/-- The first group of another length than expected. -/
def wrongGroup? (index : Nat) : List Nat → List (List Char) → Option RowIdFault
  | expected :: lengths, group :: groups =>
    if group.length = expected then wrongGroup? (index + 1) lengths groups
    else some (.groupLength index expected group.length)
  | _, _ => none

/-- The identity that a text stands for. -/
def parse (s : String) : Except RowIdFault RowId :=
  let cs := s.toList
  let (body, start, wrapped) := unwrap cs
  let groups := Text.piecesAt '-' body
  match strayFrom start body with
  | some (c, place) => .error (.character c place)
  | none =>
    if groups.length = 1 ∧ !wrapped then
      if body.length = 32 then .ok ⟨hexValue body⟩ else .error (.length (octetCount cs))
    else if groups.length ≠ 5 then .error (.groupCount groups.length)
    else match wrongGroup? 0 groupLengths groups with
      | some fault => .error fault
      | none => .ok ⟨hexValue groups.flatten⟩

end RowId

end QueryFilter
