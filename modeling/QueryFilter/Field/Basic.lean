/-!
# Fields

A field can be filtered on.  It has a name that is unique in the whole schema, a label that is
shown, a type that decides on operators and operands, and a target: the key under which the backend
knows it.  A relation leads from a field to the fields of another scope.

Scopes are points of an arbitrary type with a `Schema`, which lists the fields of each.  So a schema
may be infinite and may lead back to itself: nothing is listed before it is asked for.
-/

namespace QueryFilter

/-- The types of fields. -/
inductive FieldType where
  | text
  | number
  | date
  | select
  | multiSelect
  | boolean
  | relation
  deriving DecidableEq, Repr

namespace FieldType

/-- Every type, in the order in which they are documented. -/
def all : List FieldType :=
  [.text, .number, .date, .select, .multiSelect, .boolean, .relation]

/-- The name of a type in data. -/
def name : FieldType → String
  | .text => "TEXT"
  | .number => "NUMBER"
  | .date => "DATE"
  | .select => "SELECT"
  | .multiSelect => "MULTISELECT"
  | .boolean => "BOOLEAN"
  | .relation => "RELATION"

/-- The name of a type in messages. -/
def title : FieldType → String
  | .text => "Text"
  | .number => "Number"
  | .date => "Date"
  | .select => "Select"
  | .multiSelect => "MultiSelect"
  | .boolean => "Boolean"
  | .relation => "Relation"

/-- The type of a given name. -/
def ofName? (name : String) : Option FieldType :=
  all.find? fun type => type.name == name

/-- Every type of fields is listed. -/
@[simp] theorem mem_all (type : FieldType) : type ∈ all := by
  cases type <;> decide

/-- A type of fields is found by its name. -/
@[simp] theorem ofName?_name (type : FieldType) : ofName? type.name = some type := by
  cases type <;> decide

end FieldType

/-- How many items a relation leads to. -/
inductive RelationKind where
  | toOne
  | toMany
  deriving DecidableEq, Repr

/-- The name of a kind of relation in data. -/
def RelationKind.name : RelationKind → String
  | .toOne => "toOne"
  | .toMany => "toMany"

/-- A relation to the fields of a scope. -/
structure Relation (σ : Type) where
  kind : RelationKind
  scope : σ

/-- A field that can be filtered on. -/
structure Field (σ : Type) where
  name : String
  label : String
  type : FieldType
  target : String
  options : List String
  relation : Option (Relation σ)

instance {σ : Type} : Inhabited (Field σ) :=
  ⟨⟨"", "", .text, "", [], none⟩⟩

/-- The fields of each scope. -/
class Schema (σ : Type) where
  fields : σ → List (Field σ)

namespace Field

variable {σ τ : Type}

/-- The characters, read backwards, before two underscores in a row. -/
def beforeMark : List Char → List Char
  | '_' :: '_' :: _ => []
  | c :: cs => c :: beforeMark cs
  | [] => []

/-- What follows the last two underscores of a name; the whole name without them. -/
def lastSegment (name : String) : String :=
  String.ofList (beforeMark name.toList.reverse).reverse

/-- A field without relation, whose target is the last segment of its name. -/
def scalar (type : FieldType) (name label : String) : Field σ :=
  ⟨name, label, type, lastSegment name, [], none⟩

/-- A field whose operand is one of some options, or a list of them. -/
def choice (type : FieldType) (name label : String) (options : List String) : Field σ :=
  ⟨name, label, type, lastSegment name, options, none⟩

/-- A field that leads to the fields of a scope. -/
def related (kind : RelationKind) (name label : String) (scope : σ) : Field σ :=
  ⟨name, label, .relation, lastSegment name, [], some ⟨kind, scope⟩⟩

/-- The field with another target. -/
def withTarget (field : Field σ) (target : String) : Field σ :=
  { field with target }

/-- The kind of a field's relation. -/
def kind? (field : Field σ) : Option RelationKind :=
  field.relation.map Relation.kind

/-- Whether a field has the type of relations. -/
def isRelation (field : Field σ) : Bool :=
  field.type == .relation

/-- Whether two fields are the same one: options and relation do not count. -/
def same (a b : Field σ) : Bool :=
  a.name == b.name && a.label == b.label && a.type == b.type && a.target == b.target

/-- The field with its relation leading to another kind of scopes. -/
def mapScope (f : σ → τ) (field : Field σ) : Field τ :=
  { name := field.name
    label := field.label
    type := field.type
    target := field.target
    options := field.options
    relation := field.relation.map fun relation => ⟨relation.kind, f relation.scope⟩ }

/-! ### Small lemmas -/

/-- A scalar field is of no kind of relation. -/
@[simp] theorem kind?_scalar (type : FieldType) (name label : String) :
    (scalar type name label : Field σ).kind? = none := rfl

/-- The kind of a relation is the one that it was made with. -/
@[simp] theorem kind?_related (kind : RelationKind) (name label : String) (scope : σ) :
    (related kind name label scope).kind? = some kind := rfl

/-- A field is the same as itself. -/
@[simp] theorem same_self (field : Field σ) : field.same field = true := by
  simp [same]

end Field

end QueryFilter
