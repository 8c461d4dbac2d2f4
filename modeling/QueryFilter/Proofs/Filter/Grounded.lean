import QueryFilter.Proofs.Filter.Recompile

/-!
# Grounded rows

Rows that a client sends or that are restored are on fields that the resource reaches, at every
level of relations (`Grounded`), but not necessarily on fields of their own scope.  A row on a
relation writes what the rows it holds are compiled to, below its operator if the relation leads to
many items (`RelationPart`).
-/

namespace QueryFilter

open Catalog Compile Restore

variable {σ : Type}

/-- A row holds the rows of its value, or those that are restored from the filter it keeps. -/
def Condition.Holds [Schema σ] (row : Condition σ) (inner : List (Condition σ)) : Prop :=
  ∃ field, row.field? = some field ∧ content? field row.value = some (.rows inner)

/-- Rows without a parent are on fields that a resource reaches, and so are the rows they hold. -/
inductive Grounded (root : Resource) : List (Condition Scope) → Prop
  | rows {rows : List (Condition Scope)}
      (hknown : ∀ row ∈ rows, row.parent = none → ∀ field, row.field? = some field →
        Known root field)
      (hbelow : ∀ row ∈ rows, row.parent = none → ∀ inner, row.Holds inner →
        Grounded root inner) : Grounded root rows

/-- A row holds one list of rows at most. -/
theorem Condition.Holds.unique {row : Condition Scope} {a b : List (Condition Scope)}
    (ha : row.Holds a) (hb : row.Holds b) : a = b := by
  obtain ⟨field, hfield, ha⟩ := ha
  obtain ⟨other, hother, hb⟩ := hb
  rw [hfield] at hother
  obtain rfl := Option.some.inj hother
  rw [ha] at hb
  exact Content.rows.inj (Option.some.inj hb)

/-- What stands inside rows are these rows. -/
theorem eq_of_content?_conditions {field : Field Scope} {rows inner : List (Condition Scope)}
    (h : content? field (.conditions rows) = some (.rows inner)) : inner = rows := by
  unfold content? contentBy at h
  split at h
  · exact (Content.rows.inj (Option.some.inj h)).symm
  · exact absurd h (by simp)

/-! ### Restored rows -/

/-- Rows inside a value without rows stand on a relation, and are restored from the filter that the
value keeps. -/
theorem exists_kept_of_content? [Schema σ] {field : Field σ} {value : Value σ}
    (hkept : ∀ rows, value ≠ .conditions rows) {inner : List (Condition σ)}
    (h : content? field value = some (.rows inner)) :
    field.isRelation = true ∧ ∃ relation filter, field.relation = some relation ∧
      value = .filter filter ∧ inner = restore (Schema.fields relation.scope) filter := by
  unfold content? contentBy at h
  split at h
  · rename_i htype
    refine ⟨htype, ?_⟩
    cases value with
    | conditions rows => exact absurd rfl (hkept rows)
    | filter filter =>
      cases hrelation : field.relation with
      | none =>
        simp only [hrelation] at h
        exact absurd (Option.some.inj h) (by simp)
      | some relation =>
        simp only [hrelation] at h
        exact ⟨relation, filter, rfl, rfl, (Content.rows.inj (Option.some.inj h)).symm⟩
    | _ => exact absurd h (by simp)
  · exact absurd h (by simp)

/-- A value without rows holds what is restored from the filter that it keeps. -/
theorem exists_restore_of_content? {field : Field Scope} {value : Value Scope}
    (hkept : ∀ rows, value ≠ .conditions rows) {inner : List (Condition Scope)}
    (h : content? field value = some (.rows inner)) :
    ∃ relation filter, field.relation = some relation ∧ value = .filter filter ∧
      inner = restore (fieldsOf relation.scope) filter :=
  (exists_kept_of_content? hkept h).2

/-- A row as restoring makes it: on a field that the resource reaches, with a filter as its value if
the field is a relation, and without rows of its own. -/
def Condition.Restored (root : Resource) (row : Condition Scope) : Prop :=
  ∃ field, row.field? = some field ∧ Known root field ∧ (∀ rows, row.value ≠ .conditions rows) ∧
    (field.isRelation = true ↔ ∃ filter, row.value = .filter filter)

/-- What is restored within the reach of a resource are restored rows. -/
theorem restored_of_mem_restore {root : Resource} {scope : Scope} (hreach : Reaches root scope)
    {filter : Object} {row : Condition Scope} (h : row ∈ restore (fieldsOf scope) filter) :
    row.Restored root := by
  rw [restore_eq (universe_known root) hreach.known] at h
  exact known_of_mem_rowsAfresh (universe_known root) hreach.known hreach.known h

/-- Restored rows are grounded. -/
theorem grounded_restore {root : Resource} {scope : Scope} (hreach : Reaches root scope)
    (filter : Object) : Grounded root (restore (fieldsOf scope) filter) := by
  induction hsize : (Json.object filter).size using Nat.strongRecOn generalizing scope filter with
  | ind size ih =>
    refine .rows (fun row hrow _ field hfield => ?_) fun row hrow _ inner hinner => ?_
    · obtain ⟨own, hown, hknown, -⟩ := restored_of_mem_restore hreach hrow
      rw [hfield] at hown
      rw [Option.some.inj hown]
      exact hknown
    · obtain ⟨own, hown, ⟨below, hbelow, hmem⟩, hkept, -⟩ := restored_of_mem_restore hreach hrow
      obtain ⟨field, hfield, hcontent⟩ := hinner
      rw [hown] at hfield
      obtain rfl := Option.some.inj hfield
      obtain ⟨relation, kept, hrelation, hvalue, rfl⟩ := exists_restore_of_content? hkept hcontent
      -- the filter that the row keeps is smaller than the one that it was restored from
      have hsmaller : (Json.object kept).size < size := by
        have hweight := weight_lt_of_mem_restore hrow
        rw [row.weight_eq, hvalue, hsize] at hweight
        exact hweight
      exact ih _ hsmaller (hbelow.step hmem hrelation) kept rfl

/-- The rows inside a value that holds no rows of its own are grounded. -/
theorem grounded_of_content? {root : Resource} {field : Field Scope} (hfield : Known root field)
    {value : Value Scope} (hkept : ∀ rows, value ≠ .conditions rows)
    {inner : List (Condition Scope)} (h : content? field value = some (.rows inner)) :
    Grounded root inner := by
  obtain ⟨below, hbelow, hmem⟩ := hfield
  obtain ⟨relation, filter, hrelation, -, rfl⟩ := exists_restore_of_content? hkept h
  exact grounded_restore (hbelow.step hmem hrelation) filter

/-! ### What rows on relations write -/

/-- A row on a relation holds rows, or its value has no entries. -/
theorem content?_relation [Schema σ] {field : Field σ} {relation : Relation σ}
    (htype : field.isRelation = true) (hrelation : field.relation = some relation)
    (value : Value σ) :
    (∃ inner, content? field value = some (.rows inner)) ∨
      content? field value = none ∧ value.toJson.entries = [] := by
  unfold content? contentBy
  rw [if_pos htype]
  cases value with
  | conditions rows => exact .inl ⟨rows, rfl⟩
  | filter kept =>
    refine .inl ⟨restore (Schema.fields relation.scope) kept, ?_⟩
    simp only [hrelation]
  | _ => exact .inr ⟨rfl, rfl⟩

/-- What a row on a relation writes: the filter of the rows it holds, below its operator if there
are many items, or an operand without entries if it holds none. -/
inductive RelationPart (row : Condition Scope) (kind : RelationKind) : Object → Prop
  | many {operator : Operator} (hoperator : operator.isRelation = true)
      {inner : List (Condition Scope)} (hinner : row.Holds inner) (hkind : kind = .toMany) :
      RelationPart row kind (single operator (.object (compileRows inner)))
  | one {inner : List (Condition Scope)} (hinner : row.Holds inner) (hkind : kind = .toOne) :
      RelationPart row kind (compileRows inner)
  | plain {operator : Operator} (hoperator : operator.isRelation = true) {operand : Json}
      (hoperand : operand.entries = []) (hnone : ∀ inner, ¬ row.Holds inner) :
      RelationPart row kind (single operator operand)

/-- What a row on a relation writes has each key once. -/
theorem RelationPart.distinct {row : Condition Scope} {kind : RelationKind} {part : Object}
    (h : RelationPart row kind part) : Entries.Distinct part := by
  cases h with
  | many => exact List.nodup_singleton _
  | one => exact distinct_compileRows _
  | plain => exact List.nodup_singleton _

/-- Where a row on a relation writes, it writes what the rows it holds are compiled to, or its value
below its operator if it holds none. -/
theorem exists_content_of_part? {row : Condition Scope} {field : Field Scope}
    {relation : Relation Scope} (hfield : row.field? = some field)
    (htype : field.isRelation = true) (hrelation : field.relation = some relation) {part : Object}
    (h : part? row = some part) : ∃ operator : Operator, operator.isRelation = true ∧
      ((∃ inner, content? field row.value = some (.rows inner) ∧
          relationFragment? field operator (compileRows inner) = some part) ∨
        content? field row.value = none ∧ part = single operator row.value.toJson) := by
  have heq := type_eq_relation htype
  rw [part?_eq (Condition.field?_eq_some.1 hfield) (parent_of_part? h),
    Option.bind_eq_some_iff] at h
  obtain ⟨choice, hchoice, hpart⟩ := h
  obtain ⟨operator, hlabel, rfl⟩ := Option.map_eq_some_iff.1 hchoice
  have hoperator : operator.isRelation = true := by
    obtain ⟨spec, hspec, rfl⟩ := Option.map_eq_some_iff.1 hlabel
    have hmem := List.mem_of_find?_eq_some hspec
    rw [heq] at hmem
    have hdata : ∀ spec ∈ FieldType.relation.specs, spec.operator.isRelation = true := by decide
    exact hdata spec hmem
  refine ⟨operator, hoperator, ?_⟩
  rw [choicePart?, fragmentWith?] at hpart
  rcases content?_relation htype hrelation row.value with ⟨inner, hcontent⟩ | ⟨hcontent, -⟩
  · rw [hcontent] at hpart
    exact .inl ⟨inner, hcontent, hpart⟩
  · rw [hcontent, heq] at hpart
    exact .inr ⟨hcontent, (Option.some.inj hpart).symm⟩

/-- Where a row on a relation writes, it writes such a part. -/
theorem relationPart_of_part? {row : Condition Scope} {field : Field Scope}
    {relation : Relation Scope} (hfield : row.field? = some field)
    (htype : field.isRelation = true) (hrelation : field.relation = some relation) {part : Object}
    (h : part? row = some part) : RelationPart row relation.kind part := by
  obtain ⟨operator, hoperator, ⟨inner, hcontent, hfragment⟩ | ⟨hcontent, rfl⟩⟩ :=
    exists_content_of_part? hfield htype hrelation h
  · have hholds : row.Holds inner := ⟨field, hfield, hcontent⟩
    rw [relationFragment?, kind?_eq_some hrelation] at hfragment
    cases hk : relation.kind with
    | toMany =>
      simp only [hk, Option.some.injEq] at hfragment
      subst hfragment
      exact .many hoperator hholds rfl
    | toOne =>
      simp only [hk, Option.ite_none_left_eq_some, Option.some.injEq] at hfragment
      obtain ⟨-, rfl⟩ := hfragment
      exact .one hholds rfl
  · obtain ⟨_, hrows⟩ | ⟨-, hplain⟩ := content?_relation htype hrelation row.value
    · rw [hcontent] at hrows
      exact absurd hrows (by simp)
    · refine .plain hoperator hplain fun inner hinner => ?_
      obtain ⟨other, hother, hrows⟩ := hinner
      rw [hfield] at hother
      obtain rfl := Option.some.inj hother
      rw [hcontent] at hrows
      exact absurd hrows (by simp)

end QueryFilter
