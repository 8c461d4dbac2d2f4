import QueryFilter.Condition.Basic

/-!
# Compatibility of operators

Some operators exclude each other on one field: two lower bounds, say, or anything beside equality.
The matrix is advice for choosing an operator; a filter is compiled whatever it says.
-/

namespace QueryFilter

/-- Whether an operator that was chosen on a field excludes another one. -/
def Operator.excludes (type : FieldType) (chosen other : Operator) : Bool :=
  match type, chosen with
  | .boolean, _ => true
  | .relation, .related => true
  | .relation, _ => other == chosen || other == .related
  | _, .equals => true
  | _, .between =>
    other == .equals || other == .between || other == .gt || other == .gte || other == .lt ||
      other == .lte
  | _, .gt | _, .gte => other == .equals || other == .between || other == .gt || other == .gte
  | _, .lt | _, .lte => other == .equals || other == .between || other == .lt || other == .lte
  | _, _ => other == .equals || other == chosen

/-- The labels of a type that exclude each other with a given one, in the order of display. -/
def FieldType.incompatible (type : FieldType) (label : String) : List String :=
  match type.operator? label with
  | none => []
  | some chosen =>
    (type.specs.filter fun spec => chosen.excludes type spec.operator).map OperatorSpec.label

variable {σ : Type}

/-- Whether a row counts when an operator is chosen on a field: it is on that field, it has an
operator, and it is not the row being edited. -/
def Condition.constrains (field : Field σ) (editing : Option RowId) (row : Condition σ) : Bool :=
  (editing.isNone || row.id != editing) && !row.isDraft &&
    (row.field?.map Field.name == some field.name)

/-- The labels that other rows exclude on a field, in the order of display. -/
def disabledLabels (field : Field σ) (rows : List (Condition σ)) (editing : Option RowId) :
    List String :=
  (field.type.specs.map OperatorSpec.label).filter fun label =>
    rows.any fun row =>
      row.constrains field editing && (field.type.incompatible row.operator).contains label

/-- Labels in the order of their code points. -/
def sortLabels (labels : List String) : List String :=
  labels.mergeSort fun a b => a ≤ b

/-! ### Small lemmas -/

/-- The labels that a choice disables are those that the type offers for operators which the chosen
one excludes. -/
theorem mem_incompatible {type : FieldType} {label other : String} :
    other ∈ type.incompatible label ↔
      ∃ chosen, type.operator? label = some chosen ∧
        ∃ spec ∈ type.specs, spec.label = other ∧ chosen.excludes type spec.operator = true := by
  unfold FieldType.incompatible
  cases type.operator? label with
  | none => simp
  | some chosen =>
    simp only [List.mem_map, List.mem_filter, Option.some.injEq, exists_eq_left']
    constructor
    · rintro ⟨spec, ⟨hs, he⟩, rfl⟩
      exact ⟨spec, hs, rfl, he⟩
    · rintro ⟨spec, hs, rfl, he⟩
      exact ⟨spec, ⟨hs, he⟩, rfl⟩

end QueryFilter
