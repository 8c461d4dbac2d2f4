import QueryFilter.Field.Basic

/-!
# Operators

The operators of the query dialect, and for each type of field the operators it offers.  A user sees
an operator by its label, which depends on the type; a chip shows its glyph.

Within one type labels and operators correspond one to one (`specs_labels_nodup`,
`specs_operators_nodup`).
-/

namespace QueryFilter

/-- An operator of the query dialect.  The range operator `between` is never written: it stands for
a lower and an upper bound. -/
inductive Operator where
  | contains
  | startsWith
  | endsWith
  | equals
  | differs
  | gt
  | gte
  | lt
  | lte
  | oneOf
  | noneOf
  | between
  | someRelated
  | everyRelated
  | noRelated
  | related
  deriving DecidableEq, Repr

namespace Operator

/-- Every operator. -/
def all : List Operator :=
  [.contains, .startsWith, .endsWith, .equals, .differs, .gt, .gte, .lt, .lte, .oneOf, .noneOf,
    .between, .someRelated, .everyRelated, .noRelated, .related]

/-- The word of an operator in the dialect. -/
def word : Operator → String
  | .contains => "contains"
  | .startsWith => "startsWith"
  | .endsWith => "endsWith"
  | .equals => "equals"
  | .differs => "not"
  | .gt => "gt"
  | .gte => "gte"
  | .lt => "lt"
  | .lte => "lte"
  | .oneOf => "in"
  | .noneOf => "notIn"
  | .between => "between"
  | .someRelated => "some"
  | .everyRelated => "every"
  | .noRelated => "none"
  | .related => "is"

/-- The operator of a word. -/
def ofWord? (word : String) : Option Operator :=
  all.find? fun operator => operator.word == word

/-- Whether the operand of an operator is a filter of related items. -/
def isRelation : Operator → Bool
  | .someRelated | .everyRelated | .noRelated | .related => true
  | _ => false

/-- Whether the operand of an operator is a list. -/
def isList : Operator → Bool
  | .oneOf | .noneOf => true
  | _ => false

/-- Every operator is listed. -/
@[simp] theorem mem_all (operator : Operator) : operator ∈ all := by
  cases operator <;> decide

/-- An operator is found by its word. -/
@[simp] theorem ofWord?_word (operator : Operator) : ofWord? operator.word = some operator := by
  cases operator <;> decide

/-- No two operators share a word. -/
theorem word_injective {a b : Operator} (h : a.word = b.word) : a = b := by
  have := congrArg ofWord? h
  simpa using this

end Operator

/-- The word beside the operators of a text field under which a filter says that case does not
matter. -/
def modeKey : String := "mode"

/-- The only mode there is. -/
def insensitive : String := "insensitive"

/-- The mode is no operator. -/
theorem word_ne_modeKey (operator : Operator) : operator.word ≠ modeKey := by
  cases operator <;> decide

/-- Every operator has a word. -/
theorem word_ne_empty (operator : Operator) : operator.word ≠ "" := by
  cases operator <;> decide

/-- How the operand of a field is asked for. -/
inductive Widget where
  | textInput
  | numberInput
  | datePicker
  | select
  | multiSelect
  | toggle
  | relationBuilder
  deriving DecidableEq, Repr

/-- The name of a widget in data. -/
def Widget.name : Widget → String
  | .textInput => "text_input"
  | .numberInput => "number_input"
  | .datePicker => "date_picker"
  | .select => "select"
  | .multiSelect => "multi_select"
  | .toggle => "toggle"
  | .relationBuilder => "relation_builder"

/-- An operator as one type of field offers it. -/
structure OperatorSpec where
  label : String
  operator : Operator
  glyph : String
  deriving DecidableEq, Repr

/-- The label of the range operator. -/
def betweenLabel : String := "entre"

namespace FieldType

/-- The widget of a type. -/
def widget : FieldType → Widget
  | .text => .textInput
  | .number => .numberInput
  | .date => .datePicker
  | .select => .select
  | .multiSelect => .multiSelect
  | .boolean => .toggle
  | .relation => .relationBuilder

/-- The operators of a type in the order of display; the first one is the default. -/
def specs : FieldType → List OperatorSpec
  | .text =>
    [⟨"contém", .contains, "⊃"⟩, ⟨"igual a", .equals, "="⟩, ⟨"começa com", .startsWith, "^"⟩,
      ⟨"termina com", .endsWith, "$"⟩, ⟨"diferente de", .differs, "≠"⟩]
  | .number =>
    [⟨"igual a", .equals, "="⟩, ⟨"diferente de", .differs, "≠"⟩, ⟨"maior que", .gt, ">"⟩,
      ⟨"maior ou igual a", .gte, "≥"⟩, ⟨"menor que", .lt, "<"⟩, ⟨"menor ou igual a", .lte, "≤"⟩,
      ⟨betweenLabel, .between, "↔"⟩]
  | .date =>
    [⟨"igual a", .equals, "="⟩, ⟨"antes de", .lt, "<"⟩, ⟨"depois de", .gt, ">"⟩,
      ⟨"a partir de", .gte, "≥"⟩, ⟨"até", .lte, "≤"⟩, ⟨betweenLabel, .between, "↔"⟩]
  | .select =>
    [⟨"igual a", .equals, "="⟩, ⟨"diferente de", .differs, "≠"⟩, ⟨"em", .oneOf, "∈"⟩,
      ⟨"não em", .noneOf, "∉"⟩]
  | .multiSelect => [⟨"em", .oneOf, "∈"⟩, ⟨"não em", .noneOf, "∉"⟩]
  | .boolean => [⟨"é", .equals, "="⟩, ⟨"não é", .differs, "≠"⟩]
  | .relation =>
    [⟨"algum", .someRelated, "∃"⟩, ⟨"todos", .everyRelated, "∀"⟩, ⟨"nenhum", .noRelated, "∄"⟩,
      ⟨"possui", .related, "→"⟩]

/-- The operator that a type offers under a label. -/
def spec? (type : FieldType) (label : String) : Option OperatorSpec :=
  type.specs.find? fun spec => spec.label == label

/-- The operator behind a label. -/
def operator? (type : FieldType) (label : String) : Option Operator :=
  (type.spec? label).map OperatorSpec.operator

/-- The label of an operator. -/
def label? (type : FieldType) (operator : Operator) : Option String :=
  (type.specs.find? fun spec => spec.operator == operator).map OperatorSpec.label

/-- The glyph of the operator behind a label. -/
def glyph? (type : FieldType) (label : String) : Option String :=
  (type.spec? label).map OperatorSpec.glyph

/-! ### Labels and operators correspond -/

/-- A type offers no label twice. -/
theorem specs_labels_nodup (type : FieldType) : (type.specs.map OperatorSpec.label).Nodup := by
  cases type <;> decide

/-- A type offers no operator twice. -/
theorem specs_operators_nodup (type : FieldType) :
    (type.specs.map OperatorSpec.operator).Nodup := by
  cases type <;> decide

/-- A label that a type offers stands for its operator. -/
theorem operator?_label {type : FieldType} {spec : OperatorSpec} (h : spec ∈ type.specs) :
    type.operator? spec.label = some spec.operator := by
  revert spec
  cases type <;> decide

/-- An operator that a type offers has its label. -/
theorem label?_operator {type : FieldType} {spec : OperatorSpec} (h : spec ∈ type.specs) :
    type.label? spec.operator = some spec.label := by
  revert spec
  cases type <;> decide

end FieldType

namespace Field

variable {σ : Type}

/-- The operators that a field offers: a relation offers those that suit its kind. -/
def specs (field : Field σ) : List OperatorSpec :=
  match field.kind? with
  | some .toOne => field.type.specs.filter fun spec => spec.operator == .related
  | some .toMany => field.type.specs.filter fun spec => spec.operator != .related
  | none => field.type.specs

/-- The label of the operator that a new condition on a field has. -/
def defaultLabel? (field : Field σ) : Option String :=
  field.specs.head?.map OperatorSpec.label

/-- What a field offers, its type offers. -/
theorem mem_specs_of_mem {field : Field σ} {spec : OperatorSpec} (h : spec ∈ field.specs) :
    spec ∈ field.type.specs := by
  unfold specs at h
  split at h
  · exact (List.mem_filter.1 h).1
  · exact (List.mem_filter.1 h).1
  · exact h

end Field

end QueryFilter
