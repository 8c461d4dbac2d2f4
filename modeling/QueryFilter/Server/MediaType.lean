import QueryFilter.Text.Percent

/-!
# Media types

A media type is a type and a subtype with a slash between them, perhaps with parameters after
semicolons: `application/problem+json; charset=utf-8`.  What follows the last plus sign of a subtype
is its suffix.  The case of letters does not count.
-/

namespace QueryFilter

/-- A media type, in lower case, without its parameters. -/
structure MediaType where
  type : String
  subtype : String
  suffix : Option String
  deriving DecidableEq, Repr

namespace MediaType

/-- Whether a character may stand in a name. -/
def isNameChar (c : Char) : Bool :=
  Text.Percent.isAlphanumeric c || ("!#$%&'*+-.^_|~".toList.contains c) || c.toNat == 0x60

/-- Whether a character may stand between quotation marks. -/
def isQuotedChar (c : Char) : Bool :=
  ' ' ≤ c && c ≤ '~'

/-- The rest after a value in quotation marks, from behind the opening one.  A value is not empty,
so a quotation mark directly after the opening one belongs to it. -/
def afterQuoted? : List Char → Option (List Char)
  | [] => none
  | first :: cs =>
    if isQuotedChar first ∧ (cs.takeWhile fun c => isQuotedChar c && c != '"') ++ ['"'] <+: cs then
      some ((cs.dropWhile fun c => isQuotedChar c && c != '"').drop 1)
    else none

/-- The rest after the semicolon that ends a parameter; nothing is left after the last one. -/
def afterParameter? : List Char → Option (List Char)
  | [] => some []
  | ';' :: rest => some rest
  | _ => none

/-- The rest after one parameter.  A value without quotation marks may be empty in the last
parameter only. -/
def parameter? (cs : List Char) : Option (List Char) :=
  let name := cs.takeWhile isNameChar
  match cs.dropWhile isNameChar with
  | '=' :: '"' :: rest =>
    if name.isEmpty then none
    else (afterQuoted? rest).bind fun rest => afterParameter? (rest.dropWhile (· == ' '))
  | '=' :: rest =>
    let after := rest.dropWhile isNameChar
    if name.isEmpty ∨ ((rest.takeWhile isNameChar).isEmpty ∧ !after.isEmpty) then none
    else afterParameter? after
  | _ => none

/-- Whether a text is a list of parameters.  The first argument bounds the length of the text. -/
def areParameters : Nat → List Char → Bool
  | 0, cs => cs.isEmpty
  | n + 1, cs =>
    match cs.dropWhile (· == ' ') with
    | [] => true
    | cs =>
      match parameter? cs with
      | some rest => areParameters n rest
      | none => false

/-- A subtype, cut at its last plus sign unless it begins with that. -/
def cutSuffix (cs : List Char) : List Char × Option (List Char) :=
  let suffix := (cs.reverse.takeWhile (· != '+')).reverse
  let rest := cs.take (cs.length - suffix.length - 1)
  if rest.isEmpty then (cs, none) else (rest, some suffix)

/-- The media type that a text names. -/
def parse? (s : String) : Option MediaType :=
  let cs := s.toList.map Char.toLower
  let type := cs.takeWhile isNameChar
  match cs.dropWhile isNameChar with
  | '/' :: rest =>
    let name := rest.takeWhile isNameChar
    let (subtype, suffix) := cutSuffix name
    let found : MediaType :=
      ⟨String.ofList type, String.ofList subtype, suffix.map String.ofList⟩
    if type.isEmpty then none
    else match rest.dropWhile isNameChar with
      | [] => some found
      | ';' :: parameters =>
        if !name.isEmpty ∧ areParameters (parameters.length + 1) parameters then some found
        else none
      | _ => none
  | _ => none

/-- Whether a media type is JSON, or a format on top of it. -/
def isJson (media : MediaType) : Bool :=
  media.type == "application" && (media.subtype == "json" || media.suffix == some "json")

end MediaType

end QueryFilter
