import QueryFilter.Service.Fault

/-!
# Conditions as clients send them

A condition is an object with a field, an operator, a value and perhaps an identity, or an array of
these in the order identity, field, operator, value.  Operator and value may be missing, and other
keys do not count.  The first fault in the order of the text is the one that is reported.
-/

namespace QueryFilter

/-- A condition as a client sends it. -/
structure ConditionInput where
  id : Option RowId
  field : String
  operator : String
  value : Json

namespace ConditionInput

/-- Reads a text. -/
def textOf (value : Json) : Except ShapeFault String :=
  match value with
  | .string s => .ok s
  | other => .error (.unexpected other .string)

/-- Reads an identity, or null for none. -/
def idOf (value : Json) : Except ShapeFault (Option RowId) :=
  match value with
  | .null => .ok none
  | .string s =>
    match RowId.parse s with
    | .ok id => .ok (some id)
    | .error fault => .error (.identity fault)
  | other => .error (.unexpected other .identity)

/-- What was read of a condition so far. -/
structure Gathered where
  id : Option RowId
  field : Option String
  operator : String
  value : Json

/-- Nothing was read. -/
def Gathered.start : Gathered := ⟨none, none, "", .null⟩

/-- Reads one key with its value. -/
def Gathered.read (gathered : Gathered) (entry : String × Json) : Except ShapeFault Gathered :=
  match entry.1 with
  | "id" => (idOf entry.2).map fun id => { gathered with id }
  | "field" => (textOf entry.2).map fun field => { gathered with field := some field }
  | "operator" => (textOf entry.2).map fun operator => { gathered with operator }
  | "value" => .ok { gathered with value := entry.2 }
  | _ => .ok gathered

/-- The condition that was read, if it has a field. -/
def Gathered.finish (gathered : Gathered) : Except ShapeFault ConditionInput :=
  match gathered.field with
  | some field => .ok ⟨gathered.id, field, gathered.operator, gathered.value⟩
  | none => .error .missingField

/-- Reads an object. -/
def ofObject (entries : Object) : Except ShapeFault ConditionInput := do
  (← entries.foldlM Gathered.read .start).finish

/-- Reads an array. -/
def ofArray (items : List Json) : Except ShapeFault ConditionInput := do
  let id ← match items[0]? with
    | some item => idOf item
    | none => .ok none
  let field ← match items[1]? with
    | some item => textOf item
    | none => .error (.tooShort 1)
  let operator ← match items[2]? with
    | some item => textOf item
    | none => .ok ""
  if items.length > 4 then .error (.tooLong items.length)
  else return ⟨id, field, operator, items[3]?.getD .null⟩

/-- Reads a condition. -/
def ofJson (value : Json) : Except ShapeFault ConditionInput :=
  match value with
  | .object entries => ofObject entries
  | .array items => ofArray items
  | other => .error (.unexpected other .condition)

/-- Reads a list of conditions. -/
def listOfJson (value : Json) : Except ShapeFault (List ConditionInput) :=
  match value with
  | .array items => items.mapM ofJson
  | other => .error (.unexpected other .list)

end ConditionInput

end QueryFilter
