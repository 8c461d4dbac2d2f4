import QueryFilter.Catalog.Fields
import QueryFilter.Filter.Compile
import QueryFilter.Filter.Describe
import QueryFilter.Listing.ListQuery
import QueryFilter.Operator.Compatibility
import QueryFilter.Service.Rows
import QueryFilter.Service.View

/-!
# The service

What a client can ask for about the filters of a resource: its fields, the filter of rows, the rows
of a query string, and the operators that are left for a field.  A listing request takes only what
the resource knows from the query string of a client.
-/

namespace QueryFilter.Service

open Catalog (Scope fields)

/-- The resource of a given name. -/
def resource (name : String) : Except ServiceFault Resource :=
  match Resource.ofName? name with
  | some resource => .ok resource
  | none => .error .unknownResource

/-- Every resource. -/
def resources : Json :=
  .array (Resource.all.map Resource.summary)

/-! ### Fields -/

/-- A field and the fields below it, so many levels deep. -/
def fieldView {σ : Type} [Schema σ] : Nat → Field σ → Lookup σ FieldView
  | 0, field => return .of field []
  | below + 1, field => do
    if field.isRelation then
      return .of field (← (← Resolver.relationFields field).mapM (fieldView below))
    else return .of field []

/-- The fields of a resource and those below them. -/
def fieldTree (resource : Resource) : List FieldView :=
  let root := fields resource
  Resolver.eval root (root.mapM (fieldView (relationDepth - 1)))

/-! ### Filters -/

/-- The filter of rows that a client sent, with its query string. -/
def compileInputs (resource : Resource) (inputs : List ConditionInput) :
    Except InputFault CompiledFilter := do
  let root := fields resource
  let rows ← Intake.run root (rowsOfInputs root inputs)
  let filter := compile rows
  return ⟨filter, (filter.map fun filter => Query.serialize .standard "" (.object filter)).getD ""⟩

/-- The rows of a query string. -/
def restoreQuery (resource : Resource) (q : Option String) : List (Condition Scope) :=
  ((q.bind Query.deserialize).map (restore (fields resource))).getD []

/-- A row with its words. -/
def view {σ : Type} [Schema σ] (row : Condition σ) : Lookup σ ConditionView := do
  let description ← row.sentence
  return { id := row.id
           field := row.subject.name
           label := row.label
           operator := row.operator
           value := row.value.toJson
           parent := row.parent
           description := description
           chip := row.chip }

/-- The rows of a query string with their words. -/
def restoreViews (resource : Resource) (q : Option String) : List ConditionView :=
  Resolver.eval (fields resource) ((restoreQuery resource q).mapM view)

/-- The operators of a field, of which those are disabled that other rows exclude. -/
def operators (resource : Resource) (name : String) (inputs : List ConditionInput)
    (editing : Option RowId) : Except ServiceFault (List OperatorView) := do
  let root := fields resource
  let field ← (Intake.run root (Intake.field root name)).mapError fun _ => ServiceFault.notFound
  let rows ← (Intake.run root (rowsOfInputs root inputs)).mapError ServiceFault.invalid
  return operatorViews field (disabledLabels field rows editing).contains

/-! ### Listings -/

/-- The filter of a query string as far as the resource knows it. -/
def sanitize (resource : Resource) (q : Option String) : Option Object :=
  compile (restoreQuery resource q)

/-- The request that a listing makes to the backend. -/
def listQuery (resource : Resource) (q : Option String) (page limit : Option Nat) : ListQuery :=
  .new (sanitize resource q) page limit

end QueryFilter.Service
