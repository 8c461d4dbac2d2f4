import QueryFilter.Query.Leaf
import QueryFilter.Text.Blank
import QueryFilter.Text.Percent
import QueryFilter.Text.Split

/-!
# Bracket notation

A query string in bracket notation is a list of pairs such as `age[gte]=18`, joined by `&`.  A key
is a first segment followed by further ones in brackets, and an object without entries is a key
without `=`.  Segments and values are percent-encoded, the brackets are not.

Reading never fails.  A key that is not of this form is one segment as a whole, a plus sign is a
blank, and a text whose escapes are not well-formed stands for itself.
-/

namespace QueryFilter.Query

open Text

/-! ### Writing -/

/-- A path as a key: empty segments at the beginning are left out. -/
def keyChars (path : List String) : List Char :=
  match path.dropWhile (· == "") with
  | [] => []
  | first :: rest =>
    Percent.encode first.toList ++
      rest.flatMap fun segment => '[' :: Percent.encode segment.toList ++ [']']

/-- A leaf as a pair; a leaf without a key has none. -/
def pairChars? (leaf : Leaf) : Option (List Char) :=
  let key := keyChars leaf.path
  if key.isEmpty then none
  else match leaf.text with
    | some text => some (key ++ '=' :: Percent.encode text.toList)
    | none => some key

/-- The pairs of a value, below a given key. -/
def pairs (options : Options) (parent : String) (value : Json) : List (List Char) :=
  (leaves options value).filterMap fun leaf => pairChars? (leaf.under parent)

/-- The query string of a value, below a given key; the empty key stands for no key. -/
def serialize (options : Options) (parent : String) (value : Json) : String :=
  joinWith "&" ((pairs options parent value).map String.ofList)

/-! ### Reading -/

/-- The text of a segment or a value. -/
def decode (raw : List Char) : String :=
  let spaced := Percent.plusToBlank raw
  String.ofList ((Percent.decode spaced).getD spaced)

mutual

/-- The segments in brackets that make up a whole text. -/
def bracketed? : List Char → Option (List (List Char))
  | [] => some []
  | '[' :: cs => insideBracket? cs
  | _ :: _ => none

/-- The segments in brackets that make up a whole text, from inside a bracket. -/
def insideBracket? : List Char → Option (List (List Char))
  | [] => none
  | ']' :: cs => (bracketed? cs).map ([] :: ·)
  | c :: cs =>
    match insideBracket? cs with
    | some (segment :: segments) => some ((c :: segment) :: segments)
    | _ => none

end

/-- The path of a key. -/
def parseKey (raw : List Char) : List String :=
  let first := raw.takeWhile (· ≠ '[')
  let rest := raw.dropWhile (· ≠ '[')
  if first.isEmpty || rest.isEmpty then [decode raw]
  else match bracketed? rest with
    | some segments => decode first :: segments.map decode
    | none => [decode raw]

/-- The leaf of a pair. -/
def parsePair (pair : List Char) : Leaf :=
  match cutAt '=' pair with
  | some (key, value) => ⟨parseKey key, some (decode value)⟩
  | none => ⟨parseKey pair, none⟩

/-- The pairs of a query string: blanks at its ends and one leading question mark do not count, and
neither do empty pairs. -/
def splitPairs (query : String) : Option (List (List Char)) :=
  let trimmed := trimChars query.toList
  let bare := match trimmed with
    | '?' :: cs => cs
    | cs => cs
  if bare.isEmpty then none
  else some ((piecesAt '&' bare).filter fun pair => !pair.isEmpty)

/-- The object of a query string; there is none for an empty one. -/
def deserialize (query : String) : Option Object :=
  (splitPairs query).map fun pairs => insertAll [] (pairs.map parsePair)

/-! ### Small lemmas -/

/-- A key that begins with an empty segment is written without it. -/
@[simp] theorem keyChars_empty_cons (path : List String) :
    keyChars ("" :: path) = keyChars path := by
  simp [keyChars]

/-- Nothing is written for null. -/
@[simp] theorem serialize_null (options : Options) (parent : String) :
    serialize options parent .null = "" := by
  simp [serialize, pairs, joinWith]

end QueryFilter.Query
