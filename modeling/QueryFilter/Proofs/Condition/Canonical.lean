import QueryFilter.Catalog.Fields
import QueryFilter.Condition.Basic
import QueryFilter.Proofs.Operand

/-!
# Canonical rows

The rows that an editor produces over the fields of a scope: each has an operator that its field
offers and a value in the form in which it would be shown again (`CanonicalValue`), or, on a
relation, rows over the fields below (`RowOver`).  `Edited rule scope rows` says so for all levels
of relations, each of which satisfies a rule of its own.
-/

namespace QueryFilter

variable {σ : Type}

/-! ### Values -/

/-- A canonical end of a range: a text without blanks at its ends and without commas. -/
structure RangeEnd (type : FieldType) (s : String) : Prop where
  ne_empty : s ≠ ""
  trimmed : Text.trim s = s
  no_comma : ',' ∉ s.toList
  canonical : match type with
    | .number => Operand.IsCanonicalNumber s
    | .date => Operand.IsWholeDay s
    | _ => False

/-- A value of a scalar field that is shown as it is edited. -/
inductive CanonicalValue : FieldType → Operator → Value σ → Prop
  | text {operator : Operator} (s : String) : CanonicalValue .text operator (.text s)
  | number {operator : Operator} {s : String} (hoperator : operator ≠ .between)
      (hs : Operand.IsCanonicalNumber s) : CanonicalValue .number operator (.text s)
  | date {operator : Operator} {s : String} (hoperator : operator ≠ .between)
      (hs : Operand.IsCanonicalDate s) : CanonicalValue .date operator (.text s)
  | range {type : FieldType} {lower upper : String} (hlower : RangeEnd type lower)
      (hupper : RangeEnd type upper) :
      CanonicalValue type .between (.text (lower ++ "," ++ upper))
  | choice {operator : Operator} (s : String) : CanonicalValue .select operator (.text s)
  | choices {operator : Operator} {texts : List String} (hoperator : operator.isList = true)
      (htexts : texts ≠ []) : CanonicalValue .select operator (.list texts)
  | several {operator : Operator} {texts : List String} (htexts : texts ≠ []) :
      CanonicalValue .multiSelect operator (.list texts)
  | truth {operator : Operator} (b : Bool) : CanonicalValue .boolean operator (.bool b)

/-- Ranges are of numbers or of dates. -/
theorem RangeEnd.type_eq {type : FieldType} {s : String} (h : RangeEnd type s) :
    type = .number ∨ type = .date := by
  have hcanonical := h.canonical
  cases type with
  | number => exact .inl rfl
  | date => exact .inr rfl
  | _ => exact absurd hcanonical id

/-- The value beside the range operator is a range, where this operator is offered. -/
theorem CanonicalValue.exists_range {type : FieldType} {spec : OperatorSpec} {value : Value σ}
    (hspec : spec ∈ type.specs) (hoperator : spec.operator = .between)
    (h : CanonicalValue type spec.operator value) :
    ∃ lower upper, value = .text (lower ++ "," ++ upper) ∧ RangeEnd type lower ∧
      RangeEnd type upper := by
  have htypes : ∀ spec ∈ type.specs, spec.operator = .between → type = .number ∨ type = .date := by
    cases type <;> decide
  rw [hoperator] at h
  rcases htypes spec hspec hoperator with rfl | rfl
  · cases h with
    | number hne _ => exact absurd rfl hne
    | range hlower hupper => exact ⟨_, _, rfl, hlower, hupper⟩
  · cases h with
    | date hne _ => exact absurd rfl hne
    | range hlower hupper => exact ⟨_, _, rfl, hlower, hupper⟩

/-- The value of a scalar field holds no rows. -/
theorem CanonicalValue.ne_conditions {type : FieldType} {operator : Operator} {value : Value σ}
    (h : CanonicalValue type operator value) (rows : List (Condition σ)) :
    value ≠ .conditions rows := by
  rintro rfl
  cases h

/-- No label of an operator is blank. -/
theorem not_allBlank_label {type : FieldType} {spec : OperatorSpec} (h : spec ∈ type.specs) :
    Text.allBlank spec.label = false := by
  revert spec
  cases type <;> decide

/-! ### Rows -/

/-- The field of a row is its subject. -/
theorem Condition.field?_eq_some {row : Condition σ} {field : Field σ} :
    row.field? = some field ↔ row.subject = .field field := by
  rw [Condition.field?]
  cases row.subject <;> simp [Subject.field?]

open Catalog (Scope fieldsOf)

/-- The row holds rows over the scope that a relation leads to. -/
def Condition.Leads (row : Condition Scope) (relation : Relation Scope)
    (rows : List (Condition Scope)) : Prop :=
  ∃ field, row.subject = .field field ∧ field.relation = some relation ∧
    row.value = .conditions rows

/-- A row of an editor over the fields of a scope.  A relation to one item holds at least one
row. -/
inductive RowOver (scope : Scope) : Condition Scope → Prop
  | scalar (id : Option RowId) {field : Field Scope} {spec : OperatorSpec} {value : Value Scope}
      (hfield : field ∈ fieldsOf scope) (hrelation : field.relation = none)
      (hspec : spec ∈ field.specs) (hvalue : CanonicalValue field.type spec.operator value) :
      RowOver scope ⟨id, .field field, spec.label, value, none⟩
  | related (id : Option RowId) {field : Field Scope} {relation : Relation Scope}
      {spec : OperatorSpec} {rows : List (Condition Scope)} (hfield : field ∈ fieldsOf scope)
      (hrelation : field.relation = some relation) (hspec : spec ∈ field.specs)
      (hrows : relation.kind = .toOne → rows ≠ []) :
      RowOver scope ⟨id, .field field, spec.label, .conditions rows, none⟩

/-- Rows of an editor over the fields of a scope, with a rule that the rows of each level obey. -/
inductive Edited (rule : List (Condition Scope) → Prop) :
    Scope → List (Condition Scope) → Prop
  | level {scope : Scope} {rows : List (Condition Scope)} (hrule : rule rows)
      (hrows : ∀ row ∈ rows, RowOver scope row)
      (hbelow : ∀ row ∈ rows, ∀ relation inner, row.Leads relation inner →
        Edited rule relation.scope inner) :
      Edited rule scope rows

/-- Values that are images of something are images together. -/
theorem exists_map_eq {α β : Type} {f : α → β} {p : α → Prop} {ys : List β}
    (h : ∀ y ∈ ys, ∃ x, f x = y ∧ p x) : ∃ xs : List α, xs.map f = ys ∧ ∀ x ∈ xs, p x := by
  induction ys with
  | nil => exact ⟨[], rfl, fun _ hmem => absurd hmem List.not_mem_nil⟩
  | cons y ys ih =>
    obtain ⟨x, hx, hp⟩ := h y List.mem_cons_self
    obtain ⟨xs, hxs, hall⟩ := ih fun z hz => h z (List.mem_cons_of_mem _ hz)
    refine ⟨x :: xs, by rw [List.map_cons, hx, hxs], fun z hz => ?_⟩
    rcases List.mem_cons.1 hz with rfl | hz
    · exact hp
    · exact hall z hz

/-- No two rows are on one field. -/
def OnePerField (rows : List (Condition Scope)) : Prop :=
  rows.Pairwise fun a b => a.field? ≠ b.field?

end QueryFilter
