import Mathlib.Data.List.Nodup
import Mathlib.Data.List.Pairwise
import QueryFilter.Operator.Compatibility
import QueryFilter.Proofs.Catalog.Fields
import QueryFilter.Proofs.Condition.Canonical

/-!
# Rows that an editor permits side by side

An editor offers on a field only the operators that no other row of the field excludes
(`Compatible`).  Then the operators on one field are all different, and no two of them exclude each
other (`Compatible.choicesOn`).

Some rows that are permitted do not survive when a filter is restored: a lower and an upper bound
become one range, beside which nothing is restored, and whose ends are read again from one text.
`BoundsKept` says which rows survive.
-/

namespace QueryFilter

open Catalog (Scope fieldsOf)

variable {σ : Type}

/-! ### Choices on one field -/

/-- Whether a row is on a field; names are unique. -/
def Condition.isOn (field : Field σ) (row : Condition σ) : Bool :=
  row.field?.map Field.name == some field.name

/-- Operators and values of the rows on a field, in order. -/
def choicesOn (field : Field σ) (rows : List (Condition σ)) : List (Operator × Value σ) :=
  (rows.filter (Condition.isOn field)).filterMap fun row =>
    (field.type.operator? row.operator).map fun operator => (operator, row.value)

/-- Operators that a type offers, no two of which exclude each other. -/
structure CompatibleChoices (type : FieldType) (choices : List (Operator × Value σ)) : Prop where
  offered : ∀ choice ∈ choices, choice.1 ∈ type.specs.map OperatorSpec.operator
  apart : choices.Pairwise fun a b =>
    a.1.excludes type b.1 = false ∧ b.1.excludes type a.1 = false

/-! ### Rows that an editor permits -/

/-- Rows with different identities, none of which has an operator that is disabled on its field. -/
structure Compatible (rows : List (Condition Scope)) : Prop where
  named : ∀ row ∈ rows, row.id ≠ none
  distinct : (rows.map Condition.id).Nodup
  enabled : ∀ row ∈ rows, ∀ field, row.field? = some field →
    row.operator ∉ disabledLabels field rows row.id

/-! ### Rows that survive -/

/-- A text that is not empty and has no blanks at its ends. -/
def IsWholeText (s : String) : Prop :=
  Text.trim s = s ∧ s ≠ ""

/-- Texts of a lower and an upper bound that can be told apart, and read as before, in the text of a
range. -/
def BoundsFit (type : FieldType) (lower upper : String) : Prop :=
  match type with
  | .number => ',' ∉ lower.toList ∧ IsWholeText lower ∧ IsWholeText upper
  | .date => Operand.IsWholeDay lower ∧ Operand.IsWholeDay upper
  | _ => True

/-- A range is chosen, or a lower and an upper bound. -/
def HasBounds (choices : List (Operator × Value σ)) : Prop :=
  (∃ value, (.between, value) ∈ choices) ∨
    (∃ value, (.gte, value) ∈ choices) ∧ ∃ value, (.lte, value) ∈ choices

/-- The choices on a field survive: nothing is to be different from a value beside two bounds, and
two separate bounds fit into the text of a range. -/
structure ChoicesKept (type : FieldType) (choices : List (Operator × Value σ)) : Prop where
  alone : HasBounds choices → ∀ value, (.differs, value) ∉ choices
  whole : ∀ lower upper, (.gte, .text lower) ∈ choices → (.lte, .text upper) ∈ choices →
    BoundsFit type lower upper

/-- The choices on all fields survive, at every level of relations. -/
inductive BoundsKept : List (Condition Scope) → Prop
  | level {rows : List (Condition Scope)}
      (hfields : ∀ row ∈ rows, ∀ field, row.field? = some field →
        ChoicesKept field.type (choicesOn field rows))
      (hbelow : ∀ row ∈ rows, ∀ relation inner, row.Leads relation inner → BoundsKept inner) :
      BoundsKept rows

/-- Bounds are kept if they are on each field, and inside each relation. -/
theorem boundsKept_iff {rows : List (Condition Scope)} : BoundsKept rows ↔
    (∀ row ∈ rows, ∀ field, row.field? = some field →
      ChoicesKept field.type (choicesOn field rows)) ∧
    ∀ row ∈ rows, ∀ relation inner, row.Leads relation inner → BoundsKept inner := by
  constructor
  · intro h
    cases h with
    | level hfields hbelow => exact ⟨hfields, hbelow⟩
  · rintro ⟨hfields, hbelow⟩
    exact .level hfields hbelow

/-- Without two bounds every choice survives. -/
theorem choicesKept_of_not_hasBounds {type : FieldType} {choices : List (Operator × Value σ)}
    (h : ¬ HasBounds choices) : ChoicesKept type choices where
  alone hbounds := absurd hbounds h
  whole _ _ hlower hupper := absurd (.inr ⟨⟨_, hlower⟩, ⟨_, hupper⟩⟩) h

/-- Without choices none is lost. -/
theorem choicesKept_nil (type : FieldType) :
    ChoicesKept type ([] : List (Operator × Value σ)) := by
  apply choicesKept_of_not_hasBounds
  rintro (⟨_, h⟩ | ⟨⟨_, h⟩, -⟩) <;> exact absurd h List.not_mem_nil

/-! ### Operators that exclude each other -/

/-- Every operator that a type offers excludes itself. -/
theorem excludes_self {type : FieldType} {operator : Operator}
    (h : operator ∈ type.specs.map OperatorSpec.operator) :
    operator.excludes type operator = true := by
  revert operator
  cases type <;> decide

namespace CompatibleChoices

variable {type : FieldType} {choices : List (Operator × Value σ)}

/-- No operator is chosen twice. -/
theorem nodup (h : CompatibleChoices type choices) : (choices.map Prod.fst).Nodup := by
  refine List.pairwise_map.2 (h.apart.imp_of_mem fun {a b} ha _ hab heq => ?_)
  have hself := excludes_self (h.offered a ha)
  rw [← heq, hself] at hab
  exact absurd hab.1 (by decide)

/-- An operator has one value. -/
theorem value_eq (h : CompatibleChoices type choices) {operator : Operator} {v w : Value σ}
    (hv : (operator, v) ∈ choices) (hw : (operator, w) ∈ choices) : v = w := by
  have hpair := List.inj_on_of_nodup_map h.nodup hv hw rfl
  exact (Prod.mk.inj hpair).2

/-- Two chosen operators are equal or do not exclude each other. -/
theorem not_excludes (h : CompatibleChoices type choices) {a b : Operator × Value σ}
    (ha : a ∈ choices) (hb : b ∈ choices) : a = b ∨ a.1.excludes type b.1 = false := by
  by_cases heq : a = b
  · exact .inl heq
  · have hsymm : Std.Symm fun a b : Operator × Value σ =>
        a.1.excludes type b.1 = false ∧ b.1.excludes type a.1 = false := ⟨fun _ _ => And.symm⟩
    exact .inr (h.apart.forall ha hb heq).1

end CompatibleChoices

/-! ### From rows to choices -/

variable {scope : Scope} {rows : List (Condition Scope)}

/-- A row of an editor has an operator that its type offers. -/
theorem RowOver.exists_spec {row : Condition Scope} (h : RowOver scope row) :
    ∃ field ∈ fieldsOf scope, ∃ spec ∈ field.type.specs, row.subject = .field field ∧
      row.operator = spec.label := by
  cases h with
  | scalar id hfield _ hspec _ => exact ⟨_, hfield, _, Field.mem_specs_of_mem hspec, rfl, rfl⟩
  | related id hfield _ hspec _ => exact ⟨_, hfield, _, Field.mem_specs_of_mem hspec, rfl, rfl⟩

/-- An operator that is not disabled is not excluded by another row of its field. -/
theorem not_excludes_of_enabled {rows : List (Condition σ)} {a b : Condition σ} (ha : a ∈ rows)
    (hne : a.id ≠ b.id) {field : Field σ} (hfield : a.field? = some field)
    (henabled : b.operator ∉ disabledLabels field rows b.id) {spec spec' : OperatorSpec}
    (hspec : spec ∈ field.type.specs) (hspec' : spec' ∈ field.type.specs)
    (hoperator : a.operator = spec.label) (hoperator' : b.operator = spec'.label) :
    spec.operator.excludes field.type spec'.operator = false := by
  have hdraft : a.isDraft = false := by
    rw [Condition.isDraft, hoperator]
    exact not_allBlank_label hspec
  have hconstrains : a.constrains field b.id = true := by
    simp [Condition.constrains, hne, hdraft, hfield]
  cases hexcludes : spec.operator.excludes field.type spec'.operator with
  | false => rfl
  | true =>
    have hmem : spec'.label ∈ field.type.incompatible spec.label :=
      mem_incompatible.2 ⟨_, FieldType.operator?_label hspec, spec', hspec', rfl, hexcludes⟩
    have hdisabled : b.operator ∈ disabledLabels field rows b.id := by
      refine List.mem_filter.2 ⟨?_, List.any_eq_true.2 ⟨a, ha, ?_⟩⟩
      · rw [hoperator']
        exact List.mem_map_of_mem hspec'
      · rw [hconstrains, hoperator, hoperator', Bool.true_and]
        exact List.contains_iff_mem.2 hmem
    exact absurd hdisabled henabled

/-- Of two compatible rows on one field neither excludes the operator of the other. -/
theorem Compatible.not_excludes (h : Compatible rows) {a b : Condition Scope} (ha : a ∈ rows)
    (hb : b ∈ rows) (hne : a.id ≠ b.id) {field : Field Scope} (hsubject : a.subject = .field field)
    (hsubject' : b.subject = .field field) {spec spec' : OperatorSpec}
    (hspec : spec ∈ field.type.specs) (hspec' : spec' ∈ field.type.specs)
    (hoperator : a.operator = spec.label) (hoperator' : b.operator = spec'.label) :
    spec.operator.excludes field.type spec'.operator = false :=
  not_excludes_of_enabled ha hne (Condition.field?_eq_some.2 hsubject)
    (h.enabled b hb field (Condition.field?_eq_some.2 hsubject')) hspec hspec' hoperator hoperator'

/-- A row that is on a field of the scope by name is on this field. -/
theorem RowOver.subject_of_isOn {row : Condition Scope} (h : RowOver scope row)
    {field : Field Scope} (hfield : field ∈ fieldsOf scope) (hon : row.isOn field = true) :
    row.subject = .field field := by
  obtain ⟨other, hother, _, _, hsubject, _⟩ := h.exists_spec
  have hname : other.name = field.name := by
    simpa [Condition.isOn, Condition.field?, hsubject, Subject.field?] using hon
  rw [hsubject, Catalog.eq_of_name hother hfield hname]

/-- A row is on the field that it has. -/
theorem isOn_of_subject {row : Condition σ} {field : Field σ} (h : row.subject = .field field) :
    row.isOn field = true := by
  simp [Condition.isOn, Condition.field?, h, Subject.field?]

/-- A choice on a field comes from a row on this field. -/
theorem exists_row_of_choice (hrows : ∀ row ∈ rows, RowOver scope row) {field : Field Scope}
    (hfield : field ∈ fieldsOf scope) {row : Condition Scope}
    (hrow : row ∈ rows.filter (Condition.isOn field)) {choice : Operator × Value Scope}
    (hchoice : ((field.type.operator? row.operator).map fun operator => (operator, row.value)) =
      some choice) :
    row ∈ rows ∧ row.subject = .field field ∧ ∃ spec ∈ field.type.specs,
      row.operator = spec.label ∧ choice = (spec.operator, row.value) := by
  obtain ⟨hmem, hon⟩ := List.mem_filter.1 hrow
  have hsubject := (hrows row hmem).subject_of_isOn hfield hon
  obtain ⟨other, _, spec, hspec, hother, hlabel⟩ := (hrows row hmem).exists_spec
  obtain rfl : other = field := Subject.field.inj (hother.symm.trans hsubject)
  rw [hlabel, FieldType.operator?_label hspec, Option.map_some] at hchoice
  exact ⟨hmem, hsubject, spec, hspec, hlabel, (Option.some.inj hchoice).symm⟩

/-- The choices on a field of rows that an editor permits are compatible. -/
theorem Compatible.choicesOn (h : Compatible rows) (hrows : ∀ row ∈ rows, RowOver scope row)
    {field : Field Scope} (hfield : field ∈ fieldsOf scope) :
    CompatibleChoices field.type (choicesOn field rows) where
  offered := by
    intro choice hchoice
    obtain ⟨row, hrow, heq⟩ := List.mem_filterMap.1 hchoice
    obtain ⟨_, _, spec, hspec, _, rfl⟩ := exists_row_of_choice hrows hfield hrow heq
    exact List.mem_map_of_mem hspec
  apart := by
    have hids : rows.Pairwise fun a b => a.id ≠ b.id := List.pairwise_map.1 h.distinct
    apply List.pairwise_filterMap.2
    refine (hids.filter (Condition.isOn field)).imp_of_mem fun {a b} ha hb hne => ?_
    intro choice hchoice choice' hchoice'
    obtain ⟨hmem, hsubject, spec, hspec, hlabel, rfl⟩ :=
      exists_row_of_choice hrows hfield ha hchoice
    obtain ⟨hmem', hsubject', spec', hspec', hlabel', rfl⟩ :=
      exists_row_of_choice hrows hfield hb hchoice'
    exact ⟨h.not_excludes hmem hmem' hne hsubject hsubject' hspec hspec' hlabel hlabel',
      h.not_excludes hmem' hmem hne.symm hsubject' hsubject hspec' hspec hlabel' hlabel⟩

/-- The choices on a scalar field of canonical rows are canonical. -/
theorem canonical_choicesOn (hrows : ∀ row ∈ rows, RowOver scope row) {field : Field Scope}
    (hfield : field ∈ fieldsOf scope) (hrelation : field.relation = none) :
    ∀ choice ∈ choicesOn field rows, CanonicalValue field.type choice.1 choice.2 := by
  intro choice hchoice
  obtain ⟨row, hrow, heq⟩ := List.mem_filterMap.1 hchoice
  obtain ⟨hmem, hsubject, spec, hspec, hlabel, rfl⟩ := exists_row_of_choice hrows hfield hrow heq
  cases hrows row hmem with
  | @scalar id other spec' value _ _ hspec' hvalue =>
    obtain rfl := Subject.field.inj hsubject
    have hoperator := FieldType.operator?_label (Field.mem_specs_of_mem hspec')
    change other.type.operator? spec'.label = _ at hoperator
    have hlabel' : spec'.label = spec.label := hlabel
    rw [hlabel', FieldType.operator?_label hspec] at hoperator
    rw [Option.some.inj hoperator]
    exact hvalue
  | related _ _ hrelation' _ _ =>
    obtain rfl := Subject.field.inj hsubject
    rw [hrelation] at hrelation'
    exact absurd hrelation' (by simp)

end QueryFilter
