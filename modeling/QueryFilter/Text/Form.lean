import QueryFilter.Text.Percent
import QueryFilter.Text.Split

/-!
# Form texts

A form text is a list of pairs with ampersands between them, and a pair is a key and a value with an
equals sign between them, both written in the alphabet of form texts.  Empty pairs do not count, and
a pair without an equals sign has an empty value.
-/

namespace QueryFilter.Text.Form

/-- The pairs of a form text as they are written. -/
def segments (cs : List Char) : List (List Char) :=
  (piecesAt '&' cs).filter fun segment => !segment.isEmpty

/-- The key and the value of a pair. -/
def pair (segment : List Char) : List Char × List Char :=
  let (key, value) := (cutAt '=' segment).getD (segment, [])
  (Percent.decodeForm key, Percent.decodeForm value)

/-- The values of a key, in their order. -/
def values (key : String) (s : String) : List String :=
  ((segments s.toList).map pair).filterMap fun (k, value) =>
    if k = key.toList then some (String.ofList value) else none

end QueryFilter.Text.Form
