import QueryFilter.Json.Printer
import QueryFilter.Operator.Basic

/-!
# Leaves of a JSON value

A query string says of every leaf of a value where it is and what it is.  A leaf is a path of keys
with a text, or with no text for an object without entries; nulls and empty arrays have no leaf.

`leaves` takes a value apart and `insertAll` puts leaves together again, one after the other.  On
the way every scalar becomes its text and every array an object with indices as keys.
-/

namespace QueryFilter.Query

/-- A place in a value, and what is there: a text, or an object without entries. -/
structure Leaf where
  path : List String
  text : Option String
  deriving DecidableEq, Repr

/-- The leaf as seen from further up. -/
def Leaf.under (key : String) (leaf : Leaf) : Leaf :=
  { leaf with path := key :: leaf.path }

/-- What is left out when a value is taken apart. -/
structure Options where
  /-- Leaves out entries that say that case does not matter; the backend assumes it anyway. -/
  omitInsensitiveMode : Bool
  deriving DecidableEq, Repr

/-- The usual options. -/
def Options.standard : Options := ⟨true⟩

/-- Whether an entry is left out. -/
def Options.omits (options : Options) (key : String) (value : Json) : Bool :=
  options.omitInsensitiveMode && key == modeKey &&
    match value with
    | .string s => s == insensitive
    | _ => false

mutual

/-- The leaves of a value, in order. -/
def leaves (options : Options) : Json → List Leaf
  | .null => []
  | .object [] => [⟨[], none⟩]
  | .object (entry :: entries) => entryLeaves options (entry :: entries)
  | .array items => itemLeaves options 0 items
  | .bool b => [⟨[], some (Json.bool b).plainText⟩]
  | .number n => [⟨[], some n.text⟩]
  | .string s => [⟨[], some s⟩]

/-- The leaves below some keys. -/
def entryLeaves (options : Options) : List (String × Json) → List Leaf
  | [] => []
  | (key, value) :: rest =>
    (if options.omits key value then [] else (leaves options value).map (Leaf.under key)) ++
      entryLeaves options rest

/-- The leaves below the indices of some items, from an index on. -/
def itemLeaves (options : Options) (index : Nat) : List Json → List Leaf
  | [] => []
  | item :: items =>
    (leaves options item).map (Leaf.under (Decimal.natText index)) ++
      itemLeaves options (index + 1) items

end

/-! ### Putting leaves together -/

/-- What a leaf leaves at its key; an object without entries leaves an object that is there as it
is. -/
def placed (text : Option String) (old : Option Json) : Json :=
  match text with
  | some s => .string s
  | none => .object ((old.map Json.entries).getD [])

/-- The key for a segment of a path: an empty one stands for the number of entries. -/
def keyFor (object : Object) (segment : String) : String :=
  if segment = "" then Decimal.natText object.length else segment

/-- Puts a leaf into an object, whose entries on the way become objects. -/
def insertAt (text : Option String) : List String → Object → Object
  | [], object => object
  | [last], object => Entries.alter object (keyFor object last) (placed text)
  | segment :: next :: path, object =>
    Entries.alter object (keyFor object segment) fun old =>
      .object (insertAt text (next :: path) ((old.map Json.entries).getD []))

/-- Puts a leaf into an object. -/
def insert (object : Object) (leaf : Leaf) : Object :=
  insertAt leaf.text leaf.path object

/-- Puts leaves into an object, one after the other. -/
def insertAll (object : Object) (leaves : List Leaf) : Object :=
  leaves.foldl insert object

/-! ### Small lemmas -/

/-- Null has no leaf. -/
@[simp] theorem leaves_null (options : Options) : leaves options .null = [] := by
  simp [leaves]

/-- A text is its own leaf. -/
@[simp] theorem leaves_string (options : Options) (s : String) :
    leaves options (.string s) = [⟨[], some s⟩] := by
  simp [leaves]

/-- An empty object is a leaf without a text. -/
@[simp] theorem leaves_emptyObject (options : Options) :
    leaves options (.object []) = [⟨[], none⟩] := by
  simp [leaves]

/-- Without leaves an object stays as it is. -/
@[simp] theorem insertAll_nil (object : Object) : insertAll object [] = object := rfl

/-- Leaves are put in from the first to the last. -/
@[simp] theorem insertAll_cons (object : Object) (leaf : Leaf) (rest : List Leaf) :
    insertAll object (leaf :: rest) = insertAll (insert object leaf) rest := rfl

/-- Joined leaves are put in part by part. -/
theorem insertAll_append (object : Object) (a b : List Leaf) :
    insertAll object (a ++ b) = insertAll (insertAll object a) b := by
  simp [insertAll]

end QueryFilter.Query
