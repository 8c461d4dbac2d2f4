import QueryFilter.Json.Reading
import QueryFilter.Service.Input

/-!
# Bodies of requests

A body is a record: the conditions alone, or a field, conditions, and the identity of the condition
that is being edited.  A body that can be read may still break a rule: fields have names, and
there are not too many conditions.
-/

namespace QueryFilter

open Json (Draft Unreadable)

/-- A request for the filter of conditions. -/
structure CompileBody where
  conditions : List ConditionInput

/-- A request for the operators of a field. -/
structure OperatorsBody where
  field : String
  conditions : List ConditionInput
  editing : Option RowId

/-! ### Reading -/

namespace Body

/-- Reads an identity. -/
def readId (draft : Draft) : Except Unreadable RowId := do
  match RowId.parse (← draft.readString) with
  | .ok id => return id
  | .error _ => throw .shape

/-- The keys of a condition. -/
def conditionKeys : List String :=
  ["id", "field", "operator", "value"]

/-- Reads one key of a condition.  The value of a condition is three levels deep in a body. -/
def readConditionKey (gathered : ConditionInput.Gathered) (key : String) (draft : Draft) :
    Except Unreadable ConditionInput.Gathered :=
  match key with
  | "id" => (draft.readOption readId).map fun id => { gathered with id }
  | "field" => draft.readString.map fun field => { gathered with field := some field }
  | "operator" => draft.readString.map fun operator => { gathered with operator }
  | _ => (draft.readJson (Json.depthLimit - 3)).map fun value => { gathered with value }

/-- Reads a condition. -/
def readCondition (draft : Draft) : Except Unreadable ConditionInput := do
  let gathered ← draft.readRecord conditionKeys readConditionKey .start
  match gathered.finish with
  | .ok condition => return condition
  | .error _ => throw .shape

/-- Reads conditions. -/
def readConditions (draft : Draft) : Except Unreadable (List ConditionInput) :=
  draft.readList readCondition

end Body

namespace CompileBody

/-- Reads the body from a text. -/
def read (s : String) : Except Unreadable CompileBody :=
  (Json.Document.read s).readAs fun draft =>
    draft.readRecord ["conditions"]
      (fun _ _ conditions => (Body.readConditions conditions).map CompileBody.mk) ⟨[]⟩

end CompileBody

namespace OperatorsBody

/-- What was read of a body so far. -/
structure Gathered where
  field : Option String
  conditions : List ConditionInput
  editing : Option RowId

/-- The keys of the body. -/
def keys : List String :=
  ["field", "conditions", "editing"]

/-- Reads one key. -/
def Gathered.read (gathered : Gathered) (key : String) (draft : Draft) :
    Except Unreadable Gathered :=
  match key with
  | "field" => draft.readString.map fun field => { gathered with field := some field }
  | "conditions" => (Body.readConditions draft).map fun conditions => { gathered with conditions }
  | _ => (draft.readOption Body.readId).map fun editing => { gathered with editing }

/-- Reads the body from a draft; the field must not be missing. -/
def readDraft (draft : Draft) : Except Unreadable OperatorsBody := do
  let gathered ← draft.readRecord keys Gathered.read ⟨none, [], none⟩
  match gathered.field with
  | some field => return ⟨field, gathered.conditions, gathered.editing⟩
  | none => throw .shape

/-- Reads the body from a text. -/
def read (s : String) : Except Unreadable OperatorsBody :=
  (Json.Document.read s).readAs readDraft

end OperatorsBody

/-! ### Rules -/

/-- The most conditions that a body holds. -/
def maxConditions : Nat := 100

/-- The words for a field without a name. -/
def fieldRequired : String :=
  "field is required"

/-- The words for the conditions that break a rule, if any do.  When there are too many, that is all
that is said. -/
def conditionsViolation? (conditions : List ConditionInput) : Option String :=
  if maxConditions < conditions.length then some "conditions: too many conditions"
  else
    let unnamed := conditions.zipIdx.filter fun (condition, _) => condition.field.isEmpty
    if unnamed.isEmpty then none
    else some (String.join (unnamed.map fun (_, place) =>
      "conditions[" ++ Decimal.natText place ++ "].field: " ++ fieldRequired))

/-- The rules that a body breaks. -/
def CompileBody.violations (body : CompileBody) : List String :=
  (conditionsViolation? body.conditions).toList

/-- The rules that a body breaks, in the order of the keys' names. -/
def OperatorsBody.violations (body : OperatorsBody) : List String :=
  (conditionsViolation? body.conditions).toList ++
    if body.field.isEmpty then ["field: " ++ fieldRequired] else []

end QueryFilter
