import QueryFilter.Entries
import QueryFilter.Decimal.Double

/-!
# JSON values

Values of the JSON data format.  Integers are kept apart from doubles, because they are written
differently, and an object keeps its keys in order.

The number of nodes of a value (`Json.size`) is the measure by which the recursions over filters
end: what lies below a key is smaller than the object (`size_lt_of_mem`).
-/

namespace QueryFilter

/-- A number: an integer, or a finite double. -/
inductive Number where
  | integer (value : Int)
  | double (value : Decimal.Double)
  deriving DecidableEq

/-- A JSON value. -/
inductive Json where
  | null
  | bool (value : Bool)
  | number (value : Number)
  | string (value : String)
  | array (items : List Json)
  | object (entries : List (String × Json))

/-- The content of a JSON object. -/
abbrev Object := Entries Json

namespace Json

instance : Inhabited Json := ⟨.null⟩

/-- The JSON value of an integer. -/
def ofInt (i : Int) : Json :=
  .number (.integer i)

/-- The JSON value of a natural. -/
def ofNat (n : Nat) : Json :=
  .number (.integer n)

/-- The JSON array of texts. -/
def ofStrings (texts : List String) : Json :=
  .array (texts.map .string)

/-- The entries of an object; any other value has none. -/
def entries : Json → Object
  | .object entries => entries
  | _ => []

/-- Whether a value is an object. -/
def isObject : Json → Bool
  | .object _ => true
  | _ => false

/-- Whether a value is an object without entries. -/
def isEmptyObject : Json → Bool
  | .object [] => true
  | _ => false

/-- Whether a value is a text. -/
def isString : Json → Bool
  | .string _ => true
  | _ => false

/-! ### The number of nodes -/

mutual

/-- The number of nodes of a value. -/
def size : Json → Nat
  | .array items => 1 + sizeItems items
  | .object entries => 1 + sizeEntries entries
  | _ => 1

/-- The number of nodes of some values. -/
def sizeItems : List Json → Nat
  | [] => 0
  | item :: items => size item + sizeItems items

/-- The number of nodes below some keys. -/
def sizeEntries : List (String × Json) → Nat
  | [] => 0
  | (_, value) :: rest => size value + sizeEntries rest

end

/-- A value counts itself as a node. -/
theorem size_pos (value : Json) : 0 < value.size := by
  cases value <;> simp only [size] <;> omega

/-- The value of an entry has at most as many nodes as all entries together. -/
theorem size_le_sizeEntries {entries : Object} {key : String} {value : Json}
    (h : (key, value) ∈ entries) : value.size ≤ sizeEntries entries := by
  induction entries with
  | nil => simp at h
  | cons entry rest ih =>
    obtain ⟨k, w⟩ := entry
    simp only [sizeEntries]
    simp only [List.mem_cons, Prod.mk.injEq] at h
    rcases h with ⟨_, rfl⟩ | h
    · omega
    · have := ih h
      omega

/-- What lies below a key of an object is smaller than the object. -/
theorem size_lt_of_mem {entries : Object} {key : String} {value : Json}
    (h : (key, value) ∈ entries) : value.size < size (.object entries) := by
  have := size_le_sizeEntries h
  simp only [size]
  omega

/-- The entries of a value, taken as an object, are no larger than the value. -/
theorem size_entries_le (value : Json) : size (.object value.entries) ≤ value.size := by
  cases value <;> simp [entries, size, sizeEntries]

end Json

end QueryFilter
