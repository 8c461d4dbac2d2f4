import QueryFilter.Proofs.Filter.Recompile

/-!
# Inert rows

A row is inert if it writes nothing whatever its value is: nobody chose its operator yet, no more
than a label is known of its field, it comes from inside a relation, or the type of its field does
not know its operator.  `prunedRows` leaves inert rows out, from a list of rows and from the rows
that are edited inside relations.

Nothing is lost by that, at any depth (`compileRows_prunedRows`): two lists of rows that differ in
inert rows only have one filter (`compile_eq_of_prunedRows_eq`).
-/

namespace QueryFilter

open Catalog Compile

variable {σ : Type}

/-! ### Leaving inert rows out -/

/-- Whether a row writes nothing whatever its value is. -/
def Condition.isInert (row : Condition σ) : Bool :=
  row.isDraft || row.parent.isSome ||
    match row.field? with
    | none => true
    | some field => (field.type.operator? row.operator).isNone

mutual

/-- A row without the inert rows inside it.  Rows count as being inside only where the field is a
relation. -/
def Condition.pruned : Condition σ → Condition σ
  | ⟨id, subject, operator, value, parent⟩ =>
    ⟨id, subject, operator, if subject.field?.any Field.isRelation then value.pruned else value,
      parent⟩

/-- A value without the inert rows inside it. -/
def Value.pruned : Value σ → Value σ
  | .conditions rows => .conditions (prunedRows rows)
  | other => other

/-- Rows without those that are inert, and without the inert rows inside the others. -/
def prunedRows : List (Condition σ) → List (Condition σ)
  | [] => []
  | row :: rows => if row.isInert then prunedRows rows else row.pruned :: prunedRows rows

end

/-! ### Inert rows write nothing -/

/-- The inert rows are those that do not count. -/
theorem isInert_eq (row : Condition σ) : row.isInert = (counted? row).isNone := by
  unfold Condition.isInert counted?
  cases row.isDraft || row.parent.isSome with
  | true => rfl
  | false =>
    cases row.field? with
    | none => rfl
    | some field => cases hoperator : field.type.operator? row.operator <;> simp [hoperator]

/-- Pruning what stands inside a row does not change whether it counts. -/
theorem counted?_pruned (row : Condition σ) : counted? row.pruned = counted? row := by
  cases row
  rfl

/-- The rows inside a row are pruned if its field is a relation. -/
theorem value_pruned {row : Condition σ} {field : Field σ} (h : row.field? = some field) :
    row.pruned.value = if field.isRelation then row.value.pruned else row.value := by
  obtain ⟨id, subject, operator, value, parent⟩ := row
  have hsubject : subject.field? = some field := h
  rw [Condition.pruned, hsubject, Option.any_some]

variable [Schema σ]

/-- An inert row writes nothing. -/
theorem fragment?_of_isInert {row : Condition σ} (h : row.isInert = true) :
    fragment? row = none := by
  rw [isInert_eq, Option.isNone_iff_eq_none] at h
  rw [fragment?, h, Option.bind_none]

mutual

/-- Pruning keeps what a row writes.  A row depends on the rows inside it through their filter
alone. -/
theorem fragment?_pruned : ∀ row : Condition σ, fragment? row.pruned = fragment? row
  | ⟨id, subject, operator, value, parent⟩ => by
    rw [fragment?, fragment?, counted?_pruned]
    cases hcounted : counted? ⟨id, subject, operator, value, parent⟩ with
    | none => rfl
    | some pair =>
      obtain ⟨field, chosen⟩ := pair
      rw [Option.bind_some, Option.bind_some, value_pruned (field?_of_counted? hcounted)]
      refine congrArg (Option.map _) ?_
      cases hrelation : field.isRelation with
      | false => rfl
      | true => exact fragmentWith?_pruned value hrelation chosen

/-- Pruning keeps what a row on a relation writes for its value. -/
theorem fragmentWith?_pruned : ∀ (value : Value σ) {field : Field σ}, field.isRelation = true →
    ∀ operator, fragmentWith? field operator value.pruned compileRows =
      fragmentWith? field operator value compileRows
  | .conditions rows, field, hrelation, operator => by
    rw [Value.pruned, fragmentWith?_conditions hrelation, fragmentWith?_conditions hrelation,
      compileRows_eq, compileRows_eq, filterMap_prunedRows rows]
  | .text _, _, _, _ => rfl
  | .list _, _, _, _ => rfl
  | .bool _, _, _, _ => rfl
  | .filter _, _, _, _ => rfl

/-- Pruning keeps what rows write, one after the other. -/
theorem filterMap_prunedRows : ∀ rows : List (Condition σ),
    (prunedRows rows).filterMap fragment? = rows.filterMap fragment?
  | [] => rfl
  | row :: rows => by
    rw [prunedRows]
    split
    · rename_i hinert
      rw [List.filterMap_cons_none (fragment?_of_isInert hinert), filterMap_prunedRows rows]
    · rw [List.filterMap_cons, List.filterMap_cons, fragment?_pruned row,
        filterMap_prunedRows rows]

end

/-- The filter of rows is that of the rows that are not inert, at every depth. -/
theorem compileRows_prunedRows (rows : List (Condition σ)) :
    compileRows (prunedRows rows) = compileRows rows := by
  rw [compileRows_eq, compileRows_eq, filterMap_prunedRows]

/-- Rows that differ in inert rows only, at any depth, have one filter. -/
theorem compile_eq_of_prunedRows_eq {a b : List (Condition σ)} (h : prunedRows a = prunedRows b)
    (ha : a ≠ []) (hb : b ≠ []) : compile a = compile b := by
  rw [compile_of_ne_nil ha, compile_of_ne_nil hb, ← compileRows_prunedRows a, h,
    compileRows_prunedRows b]

/-- Drafts beside and inside relations do not matter, also where there is nothing else inside. -/
theorem compile_drafts_in_relations :
    let draft := Condition.row none companyField "" (.text "acme")
    let shown := Condition.labelOnly none "Nome" "contém" (.text "acme")
    let unknown := Condition.row none companyField "maior que" (.text "18")
    let colleagues (rows : List (Condition Scope)) := Condition.row none
      (.related .toMany "company__staff" "Funcionários" ⟨.staff, "company__staff__"⟩) "algum"
      (.conditions rows)
    let employer (rows : List (Condition Scope)) :=
      Condition.row none companyField "possui" (.conditions rows)
    let a := [draft, employer [shown, colleagues [unknown, draft]], employer [shown]]
    let b := [employer [colleagues []], employer [], shown]
    prunedRows a = prunedRows b ∧ a ≠ [] ∧ b ≠ [] ∧ compile a = compile b := by
  intro draft shown unknown colleagues employer a b
  have hdraft : draft.isInert = true := by decide
  have hshown : shown.isInert = true := by decide
  have hunknown : unknown.isInert = true := by decide
  -- whether a row is inert does not depend on what is inside it
  have hcolleagues : ∀ rows, (colleagues rows).isInert = false := by
    have hempty : (colleagues []).isInert = false := by decide
    exact fun _ => hempty
  have hemployer : ∀ rows, (employer rows).isInert = false := by
    have hempty : (employer []).isInert = false := by decide
    exact fun _ => hempty
  have hinside : ∀ rows, (colleagues rows).pruned = colleagues (prunedRows rows) ∧
      (employer rows).pruned = employer (prunedRows rows) := fun _ => ⟨rfl, rfl⟩
  have hrows : prunedRows a = prunedRows b := by
    simp [a, b, prunedRows, hdraft, hshown, hunknown, hcolleagues, hemployer, hinside]
  have ha : a ≠ [] := List.cons_ne_nil _ _
  have hb : b ≠ [] := List.cons_ne_nil _ _
  exact ⟨hrows, ha, hb, compile_eq_of_prunedRows_eq hrows ha hb⟩

end QueryFilter
