import QueryFilter.Proofs.Catalog.Fields
import QueryFilter.Proofs.Condition.Canonical
import QueryFilter.Proofs.Filter.Compile

/-!
# Rows of the catalog, one at a time

What a row with an offered operator writes (`fragment?_offered`), and what the key of a field is
restored to (`keyRows_target`).  A relation to one item writes the filter inside it and a relation
to many writes that filter below its operator; both are restored as one row that keeps the filter
(`headRows_toOne`, `headRows_toMany`).
-/

namespace QueryFilter

open Catalog Compile Restore

/-! ### Operators that count -/

variable {σ : Type}

/-- A row with an offered operator counts. -/
theorem counted?_offered (id : Option RowId) {field : Field σ} {spec : OperatorSpec}
    (hspec : spec ∈ field.specs) (value : Value σ) :
    counted? ⟨id, .field field, spec.label, value, none⟩ = some (field, spec.operator) := by
  have hmem := Field.mem_specs_of_mem hspec
  have hdraft : Condition.isDraft ⟨id, .field field, spec.label, value, none⟩ = false :=
    not_allBlank_label hmem
  rw [counted?, if_neg (by rw [hdraft]; exact Bool.false_ne_true)]
  change ((field.type.operator? spec.label).map fun operator => (field, operator)) = _
  rw [FieldType.operator?_label hmem, Option.map_some]

/-- A row that counts is on a field. -/
theorem field?_of_counted? {row : Condition σ} {field : Field σ} {operator : Operator}
    (h : counted? row = some (field, operator)) : row.field? = some field := by
  rw [counted?, Option.ite_none_left_eq_some, Option.bind_eq_some_iff] at h
  obtain ⟨-, own, hown, hpair⟩ := h
  obtain ⟨_, _, heq⟩ := Option.map_eq_some_iff.1 hpair
  rw [hown, (Prod.mk.inj heq).1]

/-- A row that counts has no parent. -/
theorem parent_of_counted? {row : Condition σ} {field : Field σ} {operator : Operator}
    (h : counted? row = some (field, operator)) : row.parent = none := by
  rw [counted?, Option.ite_none_left_eq_some, Bool.or_eq_true, not_or,
    Option.not_isSome_iff_eq_none] at h
  exact h.1.2

/-- What a row with an offered operator writes. -/
theorem fragment?_offered [Schema σ] (id : Option RowId) {field : Field σ} {spec : OperatorSpec}
    (hspec : spec ∈ field.specs) (value : Value σ) :
    fragment? ⟨id, .field field, spec.label, value, none⟩ =
      (fragmentWith? field spec.operator value compileRows).map fun fragment =>
        (field.target, fragment) := by
  rw [fragment?, counted?_offered id hspec value]
  rfl

/-- A scalar field writes the fragment of its type. -/
theorem fragmentWith?_scalar [Schema σ] {field : Field σ} (h : field.isRelation = false)
    (operator : Operator) (value : Value σ) (compile : List (Condition σ) → Object) :
    fragmentWith? field operator value compile = scalarFragment? field.type operator value := by
  have hcontent : content? field value = none := by
    unfold content? contentBy
    rw [h, if_neg (by decide)]
  rw [fragmentWith?, hcontent]

/-- A relation writes what its rows are compiled to. -/
theorem fragmentWith?_conditions [Schema σ] {field : Field σ} (h : field.isRelation = true)
    (operator : Operator) (rows : List (Condition σ)) (compile : List (Condition σ) → Object) :
    fragmentWith? field operator (.conditions rows) compile =
      relationFragment? field operator (compile rows) := by
  have hcontent : content? field (.conditions rows) = some (.rows rows) := by
    unfold content? contentBy
    rw [h, if_pos rfl]
  rw [fragmentWith?, hcontent]

/-- A filter on a relation is read against the fields below it. -/
theorem contentBy_filter [Schema σ] {read : FilterReader σ} {field : Field σ}
    (htype : field.isRelation = true) {relation : Relation σ}
    (hrelation : field.relation = some relation) (kept : Object) :
    contentBy read field (.filter kept) =
      some (.rows (read (Schema.fields relation.scope) kept)) := by
  unfold contentBy
  rw [htype, if_pos rfl]
  simp only [hrelation]

/-- A restored relation writes what the rows of its filter are compiled to. -/
theorem fragmentWith?_filter [Schema σ] {field : Field σ} (h : field.isRelation = true)
    {relation : Relation σ} (hrelation : field.relation = some relation) (operator : Operator)
    (filter : Object) (compile : List (Condition σ) → Object) :
    fragmentWith? field operator (.filter filter) compile =
      relationFragment? field operator
        (compile (restore (Schema.fields relation.scope) filter)) := by
  have hcontent : content? field (.filter filter) =
      some (.rows (restore (Schema.fields relation.scope) filter)) :=
    contentBy_filter h hrelation filter
  rw [fragmentWith?, hcontent]

/-- A relation to many items writes the filter inside it below the operator. -/
theorem relationFragment?_toMany {field : Field σ} (h : field.kind? = some .toMany)
    (operator : Operator) (inner : Object) :
    relationFragment? field operator inner = some (single operator (.object inner)) := by
  rw [relationFragment?, h]

/-- A relation to one item writes the filter inside it as it is, unless it is empty. -/
theorem relationFragment?_toOne {field : Field σ} (h : field.kind? = some .toOne)
    (operator : Operator) {inner : Object} (hinner : inner ≠ []) :
    relationFragment? field operator inner = some inner := by
  rw [relationFragment?, h]
  simp only [List.isEmpty_eq_false_iff.2 hinner, Bool.false_eq_true, if_false]

/-! ### Operators of relations -/

/-- A field is a relation if it has the type of relations. -/
theorem type_eq_relation {field : Field σ} (h : field.isRelation = true) :
    field.type = .relation := by
  simpa [Field.isRelation] using h

/-- The kind of a field with a relation is that of the relation. -/
theorem kind?_eq_some {field : Field σ} {relation : Relation σ}
    (h : field.relation = some relation) : field.kind? = some relation.kind := by
  rw [Field.kind?, h, Option.map_some]

/-- A relation to one item offers no other operator than `is`. -/
theorem operator_of_toOne {field : Field σ} (htype : field.isRelation = true)
    (h : field.kind? = some .toOne) {spec : OperatorSpec} (hspec : spec ∈ field.specs) :
    spec ∈ FieldType.relation.specs ∧ spec.operator = .related := by
  rw [Field.specs, h, type_eq_relation htype] at hspec
  obtain ⟨hmem, hrelated⟩ := List.mem_filter.1 hspec
  exact ⟨hmem, by simpa using hrelated⟩

/-- A relation to many items offers quantifiers alone. -/
theorem operator_of_toMany {field : Field σ} (htype : field.isRelation = true)
    (h : field.kind? = some .toMany) {spec : OperatorSpec} (hspec : spec ∈ field.specs) :
    spec ∈ FieldType.relation.specs ∧ spec.operator ∈ quantifiers := by
  rw [Field.specs, h, type_eq_relation htype] at hspec
  have hdata : ∀ spec ∈ FieldType.relation.specs.filter fun spec => spec.operator != .related,
      spec ∈ FieldType.relation.specs ∧ spec.operator ∈ quantifiers := by decide
  exact hdata spec hspec

/-! ### What a key is restored to -/

/-- The key of a field that is found by it is restored to the rows of this field. -/
theorem keyRows_of_finds {scope : Scope} {field : Field Scope} (h : scope.Finds field)
    (value : Json) :
    keyRows (fieldsOf scope) (field.target, value) = headRows field none value := by
  rw [keyRows, show lookup _ _ field.target field.target = some field from h]
  rfl

/-- The key of a field of the scope is restored to the rows of this field. -/
theorem keyRows_target {scope : Scope} (h : scope.Proper) {field : Field Scope}
    (hfield : field ∈ fieldsOf scope) (value : Json) :
    keyRows (fieldsOf scope) (field.target, value) = headRows field none value :=
  keyRows_of_finds (h.finds hfield) value

/-- The rows of a scalar field come from the operators of its type. -/
theorem headRows_scalar {field : Field σ} (h : field.isRelation = false) (parent : Option String)
    (value : Json) : headRows field parent value =
      (scalarRows field.type value).map fun row => rowOf field parent row.1 row.2 := by
  unfold headRows
  rw [h, if_neg (by decide)]

/-- The rows of a relation come from the filters inside it. -/
theorem headRows_relation {field : Field σ} (h : field.isRelation = true) (parent : Option String)
    (operators : Object) : headRows field parent (.object operators) =
      (innerFilters field operators).filterMap (innerRow? field parent) := by
  unfold headRows
  rw [h, if_pos rfl]

/-- The filters below the quantifiers of a relation to many items. -/
def quantified (operators : Object) : List (Operator × Object) :=
  quantifiers.filterMap fun operator =>
    (Entries.get? operators operator.word).map fun inner => (operator, inner.entries)

/-- A quantifier is found by its word. -/
theorem quantified_single {operator : Operator} (h : operator ∈ quantifiers) (inner : Json) :
    quantified (single operator inner) = [(operator, inner.entries)] := by
  have hcases : operator = .someRelated ∨ operator = .everyRelated ∨ operator = .noRelated := by
    simpa [quantifiers] using h
  rcases hcases with rfl | rfl | rfl <;>
    simp [quantified, quantifiers, single, Entries.get?_cons, Operator.word]

/-- Filters below quantifiers come first, then the one under `is`, and at last the whole object. -/
theorem innerFilters_eq (field : Field σ) (operators : Object) :
    innerFilters field operators =
      if !(quantified operators).isEmpty then quantified operators
      else
        match Entries.get? operators Operator.related.word with
        | some inner => [(.related, inner.entries)]
        | none => if field.kind? = some .toOne then [(.related, operators)] else [] := rfl

/-- Where there are quantifiers, the filters inside a relation are those below them. -/
theorem innerFilters_quantified {operators : Object} (h : quantified operators ≠ [])
    (field : Field σ) : innerFilters field operators = quantified operators := by
  have hne : (quantified operators).isEmpty = false := List.isEmpty_eq_false_iff.2 h
  rw [innerFilters_eq, hne, Bool.not_false, if_pos rfl]

/-- Under a quantifier stands the filter inside a relation. -/
theorem innerFilters_single {operator : Operator} (h : operator ∈ quantifiers) (field : Field σ)
    (inner : Object) :
    innerFilters field (single operator (.object inner)) = [(operator, inner)] := by
  have hone := quantified_single h (.object inner)
  have hne : quantified (single operator (.object inner)) ≠ [] := by
    rw [hone]
    exact List.cons_ne_nil _ _
  rw [innerFilters_quantified hne, hone]
  rfl

/-- An object without operators is the filter inside a relation to one item. -/
theorem innerFilters_implicit {operators : Object} {field : Field σ}
    (hkind : field.kind? = some .toOne)
    (h : ∀ operator : Operator, operator.isRelation = true →
      Entries.get? operators operator.word = none) :
    innerFilters field operators = [(.related, operators)] := by
  have hnone : quantified operators = [] := by
    refine List.filterMap_eq_nil_iff.2 fun operator hoperator => ?_
    have hrelation : ∀ operator ∈ quantifiers, operator.isRelation = true := by decide
    rw [h operator (hrelation operator hoperator), Option.map_none]
  rw [innerFilters_eq, hnone, List.isEmpty_nil, Bool.not_true, if_neg (by decide), h .related rfl]
  simp only [hkind, if_true]

/-- The object below a relation to one item is restored to a row that keeps it. -/
theorem headRows_toOne {field : Field σ} (htype : field.isRelation = true)
    (hkind : field.kind? = some .toOne) {spec : OperatorSpec} (hspec : spec ∈ field.specs)
    {inner : Object} (h : ∀ operator : Operator, operator.isRelation = true →
      Entries.get? inner operator.word = none) :
    headRows field none (.object inner) = [rowOf field none spec.label (.filter inner)] := by
  obtain ⟨hmem, hrelated⟩ := operator_of_toOne htype hkind hspec
  have hlabel : FieldType.relation.label? .related = some spec.label := by
    rw [← hrelated, FieldType.label?_operator hmem]
  rw [headRows_relation htype, innerFilters_implicit hkind h]
  rw [List.filterMap_cons_some (b := rowOf field none spec.label (.filter inner)),
    List.filterMap_nil]
  rw [innerRow?, hlabel, Option.map_some]

/-- The object below a relation to many items is restored to a row that keeps the filter inside. -/
theorem headRows_toMany {field : Field σ} (htype : field.isRelation = true)
    (hkind : field.kind? = some .toMany) {spec : OperatorSpec} (hspec : spec ∈ field.specs)
    (inner : Object) : headRows field none (.object (single spec.operator (.object inner))) =
      [rowOf field none spec.label (.filter inner)] := by
  obtain ⟨hmem, hquantifier⟩ := operator_of_toMany htype hkind hspec
  rw [headRows_relation htype, innerFilters_single hquantifier]
  rw [List.filterMap_cons_some (b := rowOf field none spec.label (.filter inner)),
    List.filterMap_nil]
  rw [innerRow?, FieldType.label?_operator hmem, Option.map_some]

end QueryFilter
