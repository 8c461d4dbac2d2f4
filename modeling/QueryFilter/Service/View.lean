import QueryFilter.Condition.RowId

/-!
# Answers as data

What the service answers, and the form in which it is sent: objects whose keys have a fixed order.
Options, kinds and fields that are empty are left out.
-/

namespace QueryFilter

variable {σ : Type}

/-- An operator that a field offers. -/
structure OperatorView where
  label : String
  operator : Operator
  glyph : String
  disabled : Bool
  deriving DecidableEq, Repr

/-- An operator as data. -/
def OperatorView.toJson (view : OperatorView) : Json :=
  .object [("label", .string view.label), ("target", .string view.operator.word),
    ("glyph", .string view.glyph), ("disabled", .bool view.disabled)]

/-- The operators of a field, of which some are disabled. -/
def operatorViews (field : Field σ) (disabled : String → Bool) : List OperatorView :=
  field.specs.map fun spec => ⟨spec.label, spec.operator, spec.glyph, disabled spec.label⟩

/-- A field, and the fields below it. -/
structure FieldView where
  name : String
  label : String
  type : FieldType
  target : String
  options : List String
  kind : Option RelationKind
  operators : List OperatorView
  fields : List FieldView

/-- A field with given fields below it. -/
def FieldView.of (field : Field σ) (fields : List FieldView) : FieldView where
  name := field.name
  label := field.label
  type := field.type
  target := field.target
  options := field.options
  kind := field.kind?
  operators := operatorViews field fun _ => false
  fields := fields

/-- The parts of a field that do not depend on the fields below it. -/
def FieldView.ownEntries (view : FieldView) : Object :=
  [("name", .string view.name), ("label", .string view.label),
      ("field_type", .string view.type.name), ("target_field_path", .string view.target),
      ("widget", .string view.type.widget.name)] ++
    (if view.options.isEmpty then [] else [("options", Json.ofStrings view.options)]) ++
    (view.kind.map fun kind => ("relation_kind", Json.string kind.name)).toList ++
    [("operators", .array (view.operators.map OperatorView.toJson))]

mutual

/-- A field as data. -/
def FieldView.toJson : FieldView → Json
  | ⟨name, label, type, target, options, kind, operators, fields⟩ =>
    let own := FieldView.ownEntries ⟨name, label, type, target, options, kind, operators, []⟩
    .object (if fields.isEmpty then own else own ++ [("fields", .array (fieldViewsToJson fields))])

/-- Fields as data. -/
def fieldViewsToJson : List FieldView → List Json
  | [] => []
  | view :: views => view.toJson :: fieldViewsToJson views

end

/-- A restored row, with its words. -/
structure ConditionView where
  id : Option RowId
  field : String
  label : String
  operator : String
  value : Json
  parent : Option String
  description : String
  chip : String

/-- A compiled filter, and its query string. -/
structure CompiledFilter where
  filter : Option Object
  q : String

/-- A text, or null. -/
def Json.ofString? (text : Option String) : Json :=
  text.elim .null .string

/-- A restored row as data.  A row that nobody named has no identity. -/
def ConditionView.toJson (view : ConditionView) : Json :=
  .object [("id", Json.ofString? (view.id.map RowId.text)), ("field", .string view.field),
    ("label", .string view.label), ("operator", .string view.operator), ("value", view.value),
    ("parent", Json.ofString? view.parent), ("description", .string view.description),
    ("chip", .string view.chip)]

/-- A compiled filter as data. -/
def CompiledFilter.toJson (compiled : CompiledFilter) : Json :=
  .object [("filter", compiled.filter.elim .null .object), ("q", .string compiled.q)]

end QueryFilter
