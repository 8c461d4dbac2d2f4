import QueryFilter.Resolver
import QueryFilter.Service.Input

/-!
# Rows from what clients send

The names that clients send are looked up in the scope of the row, by name or by target, and then in
the whole schema.  An array as the value of a relation holds rows of the fields below it, down to
the last level of relations.

Faults are met row by row from left to right; in a row the field comes first, then the level, then
the items of the array, then the rows they stand for.
-/

namespace QueryFilter

variable {σ : Type}

/-- A computation that looks up fields and may meet a fault. -/
abbrev Intake (σ : Type) := ExceptT InputFault (Lookup σ)

namespace Intake

/-- The field that a client means by a name. -/
def field [Schema σ] (scope : List (Field σ)) (name : String) : Intake σ (Field σ) :=
  match scope.find? fun field => field.name == name || field.target == name with
  | some field => pure field
  | none => do
    match ← Resolver.find scope name name with
    | some field => pure field
    | none => throw (.unknownField name)

/-- The row that a client means, given how the items of an array on a relation are read. -/
def row [Schema σ] (nested : Field σ → List Json → Intake σ (List (Condition σ)))
    (scope : List (Field σ)) (input : ConditionInput) : Intake σ (Condition σ) := do
  let field ← field scope input.field
  let value ← if field.isRelation then
      match input.value with
      | .array items => do pure (Value.conditions (← nested field items))
      | other => pure (.ofJson other)
    else pure (.ofJson input.value)
  return .row input.id field input.operator value

/-- The conditions that the items of an array are. -/
def items (values : List Json) : Intake σ (List ConditionInput) :=
  match values.mapM ConditionInput.ofJson with
  | .ok inputs => pure inputs
  | .error fault => throw (.subCondition fault)

/-- The rows that a client means, with so many levels of relations below. -/
def rows [Schema σ] : Nat → List (Field σ) → List ConditionInput → Intake σ (List (Condition σ))
  | 0, scope, inputs =>
    inputs.mapM (row (fun field _ => throw (.nestedTooDeeply field.name)) scope)
  | below + 1, scope, inputs =>
    inputs.mapM (row (fun field values => do
      let nested ← items values
      rows below (← Resolver.relationFields field) nested) scope)

/-- The outcome of an intake with a new resolver. -/
def run {α : Type} (root : List (Field σ)) (intake : Intake σ α) : Except InputFault α :=
  Resolver.eval root (ExceptT.run intake)

end Intake

/-- The rows that a client means over the fields of a schema. -/
def rowsOfInputs [Schema σ] (root : List (Field σ)) (inputs : List ConditionInput) :
    Intake σ (List (Condition σ)) :=
  Intake.rows (relationDepth - 1) root inputs

end QueryFilter
