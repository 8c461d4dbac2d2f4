import QueryFilter.Filter.Restore
import QueryFilter.Proofs.Resolver

/-!
# Restored rows without memory

`rowsAfresh` restores the rows of a filter by asking the schema every time; within a universe the
resolver answers the same (`restore_eq`).

The rows that count are those without a parent.  They come key by key from the field that `lookup`
finds for the key (`topLevel_restore`): a relation has a row for each filter inside, which it keeps
unread, and a scalar field the rows of its operators.
-/

namespace QueryFilter

variable {σ : Type}

/-- The rows that do not stand inside a relation. -/
def topLevel (rows : List (Condition σ)) : List (Condition σ) :=
  rows.filter fun row => row.parent.isNone

/-- The rows without a parent are found part by part. -/
theorem topLevel_append (a b : List (Condition σ)) :
    topLevel (a ++ b) = topLevel a ++ topLevel b :=
  List.filter_append _ _

/-- If no row has a parent, none is left out. -/
theorem topLevel_of_forall {rows : List (Condition σ)} (h : ∀ row ∈ rows, row.parent = none) :
    topLevel rows = rows :=
  List.filter_eq_self.2 fun row hrow => by rw [h row hrow]; rfl

/-- If every row has a parent, none is left. -/
theorem topLevel_eq_nil {rows : List (Condition σ)} (h : ∀ row ∈ rows, row.parent ≠ none) :
    topLevel rows = [] := by
  refine List.filter_eq_nil_iff.2 fun row hrow => ?_
  rw [Option.isNone_iff_eq_none]
  exact h row hrow

/-- The rows with a parent. -/
def childrenOf (parent : Option String) (rows : List (Condition σ)) : List (Condition σ) :=
  rows.filter fun row => row.parent == parent

/-- The rows with a parent are found part by part. -/
theorem childrenOf_append (parent : Option String) (a b : List (Condition σ)) :
    childrenOf parent (a ++ b) = childrenOf parent a ++ childrenOf parent b :=
  List.filter_append _ _

/-- If all rows have one parent, they are the rows with this parent. -/
theorem childrenOf_of_forall {parent : Option String} {rows : List (Condition σ)}
    (h : ∀ row ∈ rows, row.parent = parent) : childrenOf parent rows = rows :=
  List.filter_eq_self.2 fun row hrow => beq_iff_eq.2 (h row hrow)

/-- Rows without a parent are those with none as their parent. -/
theorem topLevel_eq (rows : List (Condition σ)) : topLevel rows = childrenOf none rows := by
  refine List.filter_congr fun row _ => ?_
  cases row.parent <;> rfl

namespace Restore

/-! ### Rows from the schema -/

/-- The row of a filter inside a relation. -/
def innerRow? (field : Field σ) (parent : Option String) (pair : Operator × Object) :
    Option (Condition σ) :=
  (FieldType.relation.label? pair.1).map fun label => rowOf field parent label (.filter pair.2)

/-- The rows of the value of a field, without those inside a relation. -/
def headRows (field : Field σ) (parent : Option String) (value : Json) : List (Condition σ) :=
  if field.isRelation then
    match value with
    | .object operators => (innerFilters field operators).filterMap (innerRow? field parent)
    | _ => []
  else (scalarRows field.type value).map fun row => rowOf field parent row.1 row.2

/-- The rows of a filter inside a relation, given how its own rows are restored. -/
def innerRowsAfresh (inner : Option String → Object → List (Condition σ)) (field : Field σ)
    (parent : Option String) (path : String) (pair : Operator × Object) : List (Condition σ) :=
  match innerRow? field parent pair with
  | some row => row :: inner (some path) pair.2
  | none => []

/-- The rows of the value of a field, given how rows inside a relation are restored. -/
def fieldRowsAfresh (inner : Option String → Object → List (Condition σ)) (field : Field σ)
    (parent : Option String) (path : String) (value : Json) : List (Condition σ) :=
  if field.isRelation then
    match value with
    | .object operators =>
      (innerFilters field operators).flatMap (innerRowsAfresh inner field parent path)
    | _ => []
  else headRows field parent value

/-- The rows of a filter, from so many levels of relations. -/
def rowsAfresh [Schema σ] (root : List (Field σ)) :
    Nat → List (Field σ) → Option String → Object → List (Condition σ)
  | 0, _, _, _ => []
  | depth + 1, scope, parent, filter =>
    filter.flatMap fun entry =>
      match lookup root scope entry.1 (pathOf parent entry.1) with
      | none => []
      | some field =>
        fieldRowsAfresh (rowsAfresh root depth field.below) field parent (pathOf parent entry.1)
          entry.2

/-! ### The resolver answers them -/

section Answers

open Lookup

variable [Schema σ] {known : Field σ → Prop} {root : List (Field σ)}

/-- The rows of a filter inside a relation are those of asking afresh, if those inside it are. -/
theorem innerRows_answers {inner : Inner σ} {fields : List (Field σ)}
    {afresh : Option String → Object → List (Condition σ)}
    (h : ∀ parent filter, Answers known root (inner fields parent filter) (afresh parent filter))
    (field : Field σ) (parent : Option String) (path : String) (pair : Operator × Object) :
    Answers known root (innerRows inner field fields parent path pair)
      (innerRowsAfresh afresh field parent path pair) := by
  unfold innerRows innerRowsAfresh innerRow?
  cases FieldType.relation.label? pair.1 with
  | none => exact Answers.pure []
  | some label => exact Answers.bind (h _ _) (Answers.pure _)

/-- The rows of a field are those of asking afresh, if those inside it are. -/
theorem fieldRows_answers (hu : Universe known) {inner : Inner σ} {field : Field σ}
    {afresh : Option String → Object → List (Condition σ)}
    (h : ∀ parent filter,
      Answers known root (inner field.below parent filter) (afresh parent filter))
    (hfield : known field) (parent : Option String) (path : String) (value : Json) :
    Answers known root (fieldRows inner field parent path value)
      (fieldRowsAfresh afresh field parent path value) := by
  unfold fieldRows fieldRowsAfresh
  split
  · cases value with
    | object operators =>
      apply Answers.bind (Resolver.relationFields_answers hu hfield)
      exact Answers.flatMap fun pair _ => innerRows_answers h field parent path pair
    | _ => exact Answers.pure []
  · rename_i hrelation
    unfold headRows
    rw [if_neg hrelation]
    exact Answers.pure _

/-- The rows of a filter are those of asking afresh, from however many levels. -/
theorem levelRows_answers (hu : Universe known) (hroot : ∀ field ∈ root, known field) (depth : Nat)
    {scope : List (Field σ)} (hscope : ∀ field ∈ scope, known field) (parent : Option String)
    (filter : Object) :
    Answers known root (levelRows depth scope parent filter)
      (rowsAfresh root depth scope parent filter) := by
  induction depth generalizing scope parent filter with
  | zero => exact Answers.pure []
  | succ depth ih =>
    refine Answers.flatMap fun entry _ => ?_
    apply Answers.bind (Resolver.find_answers hu hroot scope _ _)
    cases hlookup : lookup root scope entry.1 (pathOf parent entry.1) with
    | none => exact Answers.pure []
    | some field =>
      have hfield := hu.known_of_lookup hroot hscope hlookup
      exact fieldRows_answers hu (fun parent filter => ih (hu.below hfield) parent filter) hfield _
        _ _

/-- Within a universe rows are restored as the schema has them. -/
theorem restore_eq (hu : Universe known) (hroot : ∀ field ∈ root, known field) (filter : Object) :
    restore root filter = rowsAfresh root relationDepth root none filter :=
  (levelRows_answers hu hroot relationDepth hroot none filter).eval

end Answers

/-! ### Rows without a parent -/

/-- A restored row keeps a filter if and only if its field is a relation, and holds no rows. -/
theorem exists_rowOf {field : Field σ} {parent : Option String} {value : Json} {row : Condition σ}
    (h : row ∈ headRows field parent value) :
    ∃ label kept, row = rowOf field parent label kept ∧ (∀ rows, kept ≠ .conditions rows) ∧
      (field.isRelation = true ↔ ∃ filter, kept = .filter filter) := by
  unfold headRows at h
  split at h
  · rename_i hrelation
    split at h
    · obtain ⟨pair, _, hrow⟩ := List.mem_filterMap.1 h
      obtain ⟨label, _, rfl⟩ := Option.map_eq_some_iff.1 hrow
      exact ⟨label, .filter pair.2, rfl, fun rows => by simp,
        fun _ => ⟨pair.2, rfl⟩, fun _ => hrelation⟩
    · exact absurd h List.not_mem_nil
  · rename_i hscalar
    obtain ⟨pair, hpair, rfl⟩ := List.mem_map.1 h
    -- values of scalar fields have nothing inside
    have hweight := weight_of_mem_scalarRows hpair
    refine ⟨pair.1, pair.2, rfl, fun rows heq => ?_, fun hrelation => absurd hrelation hscalar, ?_⟩
    · rw [heq, Value.weight] at hweight
      exact absurd hweight (Nat.succ_ne_zero _ ∘ (Nat.add_comm _ _).trans)
    · rintro ⟨filter, heq⟩
      rw [heq, Value.weight] at hweight
      exact absurd hweight (Nat.ne_of_gt (Json.size_pos _))

/-- The rows of a field have the parent that is given. -/
theorem parent_of_mem_headRows {field : Field σ} {parent : Option String} {value : Json}
    {row : Condition σ} (h : row ∈ headRows field parent value) : row.parent = parent := by
  obtain ⟨label, kept, rfl, -⟩ := exists_rowOf h
  rfl

/-- The rows of a field are on this field. -/
theorem subject_of_mem_headRows {field : Field σ} {parent : Option String} {value : Json}
    {row : Condition σ} (h : row ∈ headRows field parent value) : row.subject = .field field := by
  obtain ⟨label, kept, rfl, -⟩ := exists_rowOf h
  rfl

/-- The rows of a key are those of its field, and what is restored from the filters inside. -/
theorem mem_fieldRowsAfresh {inner : Option String → Object → List (Condition σ)} {field : Field σ}
    {parent : Option String} {path : String} {value : Json} {row : Condition σ}
    (h : row ∈ fieldRowsAfresh inner field parent path value) :
    row ∈ headRows field parent value ∨ ∃ filter, row ∈ inner (some path) filter := by
  unfold fieldRowsAfresh at h
  by_cases hrelation : field.isRelation = true
  · rw [if_pos hrelation] at h
    unfold headRows
    rw [if_pos hrelation]
    cases value with
    | object operators =>
      obtain ⟨pair, hpair, hrow⟩ := List.mem_flatMap.1 h
      unfold innerRowsAfresh at hrow
      split at hrow
      · rename_i head hhead
        rcases List.mem_cons.1 hrow with rfl | hrow
        · exact .inl (List.mem_filterMap.2 ⟨pair, hpair, hhead⟩)
        · exact .inr ⟨pair.2, hrow⟩
      · exact absurd hrow List.not_mem_nil
    | _ => exact absurd h List.not_mem_nil
  · rw [if_neg hrelation] at h
    exact .inl h

/-- Without the rows inside relations the rows of the field are left. -/
theorem childrenOf_fieldRowsAfresh {inner : Option String → Object → List (Condition σ)}
    {parent : Option String} {path : String}
    (hinner : ∀ filter, childrenOf parent (inner (some path) filter) = []) (field : Field σ)
    (value : Json) :
    childrenOf parent (fieldRowsAfresh inner field parent path value) =
      headRows field parent value := by
  have hhead : childrenOf parent (headRows field parent value) = headRows field parent value :=
    childrenOf_of_forall fun row => parent_of_mem_headRows
  unfold fieldRowsAfresh
  by_cases hrelation : field.isRelation = true
  · unfold headRows
    rw [if_pos hrelation, if_pos hrelation]
    cases value with
    | object operators =>
      simp only
      clear hhead
      induction innerFilters field operators with
      | nil => rfl
      | cons pair pairs ih =>
        rw [List.flatMap_cons, childrenOf_append, ih, List.filterMap_cons, innerRowsAfresh]
        cases hrow : innerRow? field parent pair with
        | none => rfl
        | some row =>
          obtain ⟨label, _, rfl⟩ := Option.map_eq_some_iff.1 hrow
          have hown : childrenOf parent
              (rowOf field parent label (.filter pair.2) :: inner (some path) pair.2) =
              rowOf field parent label (.filter pair.2) ::
                childrenOf parent (inner (some path) pair.2) :=
            List.filter_cons_of_pos (beq_self_eq_true parent)
          simp only [hown, hinner]
          rfl
    | _ => rfl
  · rw [if_neg hrelation]
    exact hhead

variable [Schema σ]

/-- Restored rows are on known fields; they keep a filter if and only if the field is a relation,
and hold no rows. -/
theorem known_of_mem_rowsAfresh {known : Field σ → Prop} (hu : Universe known)
    {root : List (Field σ)} (hroot : ∀ field ∈ root, known field) {depth : Nat}
    {scope : List (Field σ)} (hscope : ∀ field ∈ scope, known field) {parent : Option String}
    {filter : Object} {row : Condition σ} (h : row ∈ rowsAfresh root depth scope parent filter) :
    ∃ field, row.field? = some field ∧ known field ∧ (∀ rows, row.value ≠ .conditions rows) ∧
      (field.isRelation = true ↔ ∃ filter, row.value = .filter filter) := by
  induction depth generalizing scope parent filter with
  | zero => exact absurd h List.not_mem_nil
  | succ depth ih =>
    obtain ⟨entry, _, hrow⟩ := List.mem_flatMap.1 h
    cases hlookup : lookup root scope entry.1 (pathOf parent entry.1) with
    | none =>
      simp only [hlookup] at hrow
      exact absurd hrow List.not_mem_nil
    | some field =>
      simp only [hlookup] at hrow
      have hfield := hu.known_of_lookup hroot hscope hlookup
      rcases mem_fieldRowsAfresh hrow with hhead | ⟨inner, hinner⟩
      · obtain ⟨label, kept, rfl, hkept⟩ := exists_rowOf hhead
        exact ⟨field, rfl, hfield, hkept⟩
      · exact ih (hu.below hfield) hinner

/-- Rows inside a relation have a parent whose path begins with that of the relation. -/
theorem exists_parent_of_mem_rowsAfresh {root : List (Field σ)} {depth : Nat}
    {scope : List (Field σ)} {path : String} {filter : Object} {row : Condition σ}
    (h : row ∈ rowsAfresh root depth scope (some path) filter) :
    ∃ rest, row.parent = some (path ++ rest) := by
  induction depth generalizing scope path filter with
  | zero => exact absurd h List.not_mem_nil
  | succ depth ih =>
    obtain ⟨entry, _, hrow⟩ := List.mem_flatMap.1 h
    split at hrow
    · exact absurd hrow List.not_mem_nil
    · rcases mem_fieldRowsAfresh hrow with hhead | ⟨inner, hinner⟩
      · exact ⟨"", by rw [parent_of_mem_headRows hhead, String.append_empty]⟩
      · obtain ⟨rest, hrest⟩ := ih hinner
        exact ⟨"__" ++ entry.1 ++ rest, by rw [hrest, pathOf]; simp only [String.append_assoc]⟩

/-- No row inside a relation has the parent of the row of the relation. -/
theorem childrenOf_inside (root : List (Field σ)) (depth : Nat) (scope : List (Field σ))
    (parent : Option String) (key : String) (filter : Object) :
    childrenOf parent (rowsAfresh root depth scope (some (pathOf parent key)) filter) = [] := by
  refine List.filter_eq_nil_iff.2 fun row hrow hparent => ?_
  obtain ⟨rest, hrest⟩ := exists_parent_of_mem_rowsAfresh hrow
  rw [beq_iff_eq, hrest] at hparent
  cases parent with
  | none => exact absurd hparent (by simp)
  | some path =>
    have hlength := congrArg String.length (Option.some.inj hparent)
    rw [pathOf, String.length_append, String.length_append, String.length_append] at hlength
    have hmark : "__".length = 2 := rfl
    omega

/-- The rows of one key of a filter, without those inside it, as the key is looked up from a scope
under a parent. -/
def rowsAt (root scope : List (Field σ)) (parent : Option String) (entry : String × Json) :
    List (Condition σ) :=
  ((lookup root scope entry.1 (pathOf parent entry.1)).map fun field =>
    headRows field parent entry.2).getD []

/-- The rows without a parent of one key of a filter. -/
def keyRows (root : List (Field σ)) (entry : String × Json) : List (Condition σ) :=
  ((lookup root root entry.1 entry.1).map fun field => headRows field none entry.2).getD []

/-- The rows of a key at the top are those without a parent. -/
theorem keyRows_eq (root : List (Field σ)) : keyRows root = rowsAt root root none := rfl

/-- The rows with the parent of a filter come key by key from the fields of the keys. -/
theorem childrenOf_rowsAfresh (root : List (Field σ)) (depth : Nat) (scope : List (Field σ))
    (parent : Option String) (filter : Object) :
    childrenOf parent (rowsAfresh root (depth + 1) scope parent filter) =
      filter.flatMap (rowsAt root scope parent) := by
  rw [rowsAfresh]
  induction filter with
  | nil => rfl
  | cons entry filter ih =>
    rw [List.flatMap_cons, List.flatMap_cons, childrenOf_append, ih, rowsAt]
    congr 1
    cases lookup root scope entry.1 (pathOf parent entry.1) with
    | none => rfl
    | some field =>
      exact childrenOf_fieldRowsAfresh (childrenOf_inside root depth _ parent entry.1) field entry.2

/-- The rows without a parent of a filter. -/
theorem topLevel_restore {known : Field σ → Prop} (hu : Universe known) {root : List (Field σ)}
    (hroot : ∀ field ∈ root, known field) (filter : Object) :
    topLevel (restore root filter) = filter.flatMap (keyRows root) := by
  rw [restore_eq hu hroot, relationDepth, topLevel_eq, childrenOf_rowsAfresh, keyRows_eq]

/-- A row of a key is one of the field that is found for the key. -/
theorem exists_of_mem_rowsAt {root scope : List (Field σ)} {parent : Option String}
    {entry : String × Json} {row : Condition σ} (h : row ∈ rowsAt root scope parent entry) :
    ∃ field, lookup root scope entry.1 (pathOf parent entry.1) = some field ∧
      row ∈ headRows field parent entry.2 := by
  unfold rowsAt at h
  cases hlookup : lookup root scope entry.1 (pathOf parent entry.1) with
  | none =>
    rw [hlookup] at h
    exact absurd h List.not_mem_nil
  | some field =>
    rw [hlookup] at h
    exact ⟨field, rfl, h⟩

/-- A row without a parent is on a field of the first levels of the schema. -/
theorem field_of_mem_keyRows {root : List (Field σ)} {entry : String × Json} {row : Condition σ}
    (h : row ∈ keyRows root entry) :
    ∃ field ∈ levels (relationDepth - 1) root, lookup root root entry.1 entry.1 = some field ∧
      row ∈ headRows field none entry.2 := by
  rw [keyRows_eq] at h
  obtain ⟨field, hlookup, hrow⟩ := exists_of_mem_rowsAt h
  exact ⟨field, mem_levels_of_lookup hlookup, hlookup, hrow⟩

end Restore

end QueryFilter
