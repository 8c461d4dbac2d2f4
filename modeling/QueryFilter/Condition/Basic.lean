import QueryFilter.Json.Printer
import QueryFilter.Operator.Basic
import QueryFilter.Text.Blank

/-!
# Conditions

A condition is one row of a filter: a field, the label of an operator, and a value.  The value of a
row on a relation is a list of rows, as they are edited, or a filter, as it was restored from a
query string.

`Value.weight` bounds the nesting of what is still to be read out of a value.
-/

namespace QueryFilter

/-- The identity of a row, a number of 128 bits. -/
structure RowId where
  value : Nat
  deriving DecidableEq, Repr

/-- The field of a row.  A row that is only shown may know no more than a label. -/
inductive Subject (σ : Type) where
  | field (field : Field σ)
  | labelOnly (label : String)

mutual

/-- One row of a filter.  A row that nobody named yet has no identity.  A row that was restored from
inside a relation has the path of the relation as its parent; the row of the relation itself already
says all that such a row says. -/
structure Condition (σ : Type) where
  id : Option RowId
  subject : Subject σ
  operator : String
  value : Value σ
  parent : Option String

/-- The value of a row. -/
inductive Value (σ : Type) where
  | text (text : String)
  | list (texts : List String)
  | bool (value : Bool)
  /-- The rows inside a relation, as they are edited. -/
  | conditions (rows : List (Condition σ))
  /-- The filter inside a relation, as it was restored. -/
  | filter (filter : Object)

end

variable {σ : Type}

instance : Inhabited (Value σ) := ⟨.text ""⟩

instance : Inhabited (Condition σ) := ⟨⟨none, .labelOnly "", "", .text "", none⟩⟩

namespace Subject

/-- The label of a row's field. -/
def label : Subject σ → String
  | .field f => f.label
  | .labelOnly known => known

/-- The name of a row's field, or the label if no more is known. -/
def name : Subject σ → String
  | .field f => f.name
  | .labelOnly known => known

/-- The field of a row, unless only a label is known. -/
def field? : Subject σ → Option (Field σ)
  | .field f => some f
  | .labelOnly _ => none

end Subject

namespace Value

/-- The value of a new row. -/
def blank : Value σ :=
  .text ""

/-- Whether a value says nothing. -/
def isEmpty : Value σ → Bool
  | .text s => Text.allBlank s
  | .list texts => texts.isEmpty
  | .bool _ => false
  | .conditions rows => rows.isEmpty
  | .filter entries => entries.isEmpty

/-- The value that a JSON value stands for: texts, numbers and truth values as such, an array as a
list of texts, an object as a filter. -/
def ofJson : Json → Value σ
  | .string s => .text s
  | .bool b => .bool b
  | .number n => .text n.text
  | .array items => .list (items.map Json.plainText)
  | .object entries => .filter entries
  | .null => blank

end Value

namespace Condition

/-- A row that is not restored. -/
def row (id : Option RowId) (field : Field σ) (operator : String) (value : Value σ) :
    Condition σ :=
  ⟨id, .field field, operator, value, none⟩

/-- A row of which only the label of the field is known. -/
def labelOnly (id : Option RowId) (label operator : String) (value : Value σ) : Condition σ :=
  ⟨id, .labelOnly label, operator, value, none⟩

/-- A new row on a field. -/
def forField (id : Option RowId) (field : Field σ) : Condition σ :=
  row id field (field.defaultLabel?.getD "") .blank

/-- The row moved to another field; operator and value start anew. -/
def changeField (condition : Condition σ) (field : Field σ) : Condition σ :=
  { condition with
    subject := .field field
    operator := field.defaultLabel?.getD ""
    value := .blank }

/-- Whether the operator of a row is still to be chosen. -/
def isDraft (condition : Condition σ) : Bool :=
  Text.allBlank condition.operator

/-- The field of a row, unless only a label is known. -/
def field? (condition : Condition σ) : Option (Field σ) :=
  condition.subject.field?

/-- The label of a row's field. -/
def label (condition : Condition σ) : String :=
  condition.subject.label

end Condition

/-! ### JSON -/

mutual

/-- A row as data: the name of its field, its operator and its value. -/
def Condition.toJson : Condition σ → Json
  | ⟨_, subject, operator, value, _⟩ =>
    .object [("field", .string subject.name), ("operator", .string operator),
      ("value", value.toJson)]

/-- A value as data. -/
def Value.toJson : Value σ → Json
  | .text s => .string s
  | .list texts => .ofStrings texts
  | .bool b => .bool b
  | .conditions rows => .array (rowsToJson rows)
  | .filter entries => .object entries

/-- Rows as data. -/
def rowsToJson : List (Condition σ) → List Json
  | [] => []
  | row :: rows => row.toJson :: rowsToJson rows

end

/-! ### The weight of a value -/

mutual

/-- The weight of a row is that of its value. -/
def Condition.weight : Condition σ → Nat
  | ⟨_, _, _, value, _⟩ => value.weight

/-- A filter weighs as much as it has nodes, and rows weigh more than each of them. -/
def Value.weight : Value σ → Nat
  | .conditions rows => 1 + rowsWeight rows
  | .filter entries => (Json.object entries).size
  | _ => 0

/-- Rows weigh as much as the heaviest of them. -/
def rowsWeight : List (Condition σ) → Nat
  | [] => 0
  | row :: rows => max row.weight (rowsWeight rows)

end

/-- A row weighs no more than the rows that it is one of. -/
theorem weight_le_rowsWeight {row : Condition σ} {rows : List (Condition σ)} (h : row ∈ rows) :
    row.weight ≤ rowsWeight rows := by
  induction rows with
  | nil => simp at h
  | cons other rows ih =>
    simp only [rowsWeight]
    rcases List.mem_cons.1 h with rfl | h
    · exact Nat.le_max_left _ _
    · exact Nat.le_trans (ih h) (Nat.le_max_right _ _)

/-- A row weighs what its value weighs. -/
theorem Condition.weight_eq (row : Condition σ) : row.weight = row.value.weight := by
  cases row; rfl

/-- Rows are written as JSON one by one. -/
theorem rowsToJson_eq_map (rows : List (Condition σ)) :
    rowsToJson rows = rows.map Condition.toJson := by
  induction rows with
  | nil => rfl
  | cons row rows ih => simp [rowsToJson, ih]

/-- A row that is made for a field is on this field. -/
@[simp] theorem Condition.field?_row (id : Option RowId) (field : Field σ) (operator : String)
    (value : Value σ) : (Condition.row id field operator value).field? = some field := rfl

end QueryFilter
