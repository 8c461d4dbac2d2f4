import QueryFilter.Decimal.Literal
import QueryFilter.Decimal.Power
import QueryFilter.Text.Form

/-!
# Parameters of a listing

The filter of a listing comes in two shapes: as one parameter `q` that holds a whole query string,
or as bracket pairs beside the other parameters.  Both are joined into one query string, `q` first.

Reading never fails; what makes no sense is left out.
-/

namespace QueryFilter

open Text

/-- The parameters of a listing. -/
structure ListParams where
  q : Option String
  page : Option Nat
  limit : Option Nat
  deriving DecidableEq, Repr

namespace ListParams

/-- A number that fits 32 bits. -/
def number? (value : List Char) : Option Nat :=
  Decimal.natBelow? (Decimal.twoPow 32) value

/-- A key of a bracket pair, encoded anew as a form text; brackets stay. -/
def encodeKey (key : List Char) : List Char :=
  key.flatMap fun c => if c = '[' ∨ c = ']' then [c] else Percent.encodeForm [c]

/-- A bracket pair with its key encoded anew and its value as it came; a pair without `=` stays
so. -/
def inlinePair (key segment : List Char) : List Char :=
  match cutAt '=' segment with
  | some (_, value) => encodeKey key ++ '=' :: value
  | none => encodeKey key

/-- What was read so far: the parameters, and the bracket pairs. -/
structure Draft where
  q : Option (List Char)
  page : Option Nat
  limit : Option Nat
  inline : List (List Char)

/-- Reads one segment between ampersands. -/
def Draft.read (draft : Draft) (segment : List Char) : Draft :=
  let (key, value) := Form.pair segment
  if key = "q".toList then
    if value.isEmpty then draft else { draft with q := some value }
  else if key = "page".toList then { draft with page := number? value }
  else if key = "limit".toList then { draft with limit := number? value }
  else { draft with inline := draft.inline ++ [inlinePair key segment] }

/-- The parts of the joined query string. -/
def Draft.parts (draft : Draft) : List (List Char) :=
  draft.q.toList ++ draft.inline

/-- The parameters of a raw query string. -/
def parse (query : String) : ListParams :=
  let draft := (Form.segments query.toList).foldl Draft.read ⟨none, none, none, []⟩
  let parts := draft.parts
  { q := if parts.isEmpty then none else some (joinWith "&" (parts.map String.ofList))
    page := draft.page
    limit := draft.limit }

end ListParams

end QueryFilter
