import QueryFilter.Condition.Basic
import QueryFilter.Decimal.Power
import QueryFilter.Operand
import QueryFilter.Resolver
import QueryFilter.Text.Split

/-!
# Restoring rows from a filter

A filter object may have been edited by hand or may be older than the schema, so that reading it
never fails: keys that no field has and operators that a type does not offer are left out.

The rows inside a relation come after the row of the relation, which itself keeps the whole inner
filter.  Whatever fields are found for the keys and however many levels are read, every filter so
kept is smaller than the filter that is read (`shrinks_restoreBy`); all recursions over filters end
because of it.
-/

namespace QueryFilter

variable {σ : Type}

namespace Restore

/-! ### Values -/

/-- The items of arrays, of objects whose keys are indices, and of texts with commas. -/
def listItems : Json → List String
  | .array items => items.map Json.plainText
  | .object entries =>
    match entries.mapM fun entry => (index? entry.1).map fun index => (index, entry.2) with
    | some indexed => (indexed.mergeSort fun a b => a.1 ≤ b.1).map fun entry => entry.2.plainText
    | none => entries.map fun entry => entry.2.plainText
  | .string s =>
    if Text.allBlank s then [] else (Text.pieces ',' s).map Text.trim
  | .null => []
  | value => [value.plainText]
where
  /-- The index that a key stands for. -/
  index? (key : String) : Option Nat :=
    Decimal.natBelow? (Decimal.twoPow 64) key.toList

/-- The value of a row from the operand of an operator. -/
def valueOf (type : FieldType) (operator : Operator) (operand : Json) : Value σ :=
  match type with
  | .boolean =>
    match operand with
    | .bool b => .bool b
    | other =>
      match Operand.bool? other.plainText with
      | some b => .bool b
      | none => .text other.plainText
  | .multiSelect => .list (listItems operand)
  | .number => if operator.isList then .list (listItems operand) else .text operand.plainText
  | .select =>
    if operator.isList && !operand.isString then .list (listItems operand)
    else .text operand.plainText
  | .date => .text ((Operand.shownText? operand.plainText).getD operand.plainText)
  | .text | .relation => .text operand.plainText

/-- An end of a range. -/
def endpoint (type : FieldType) (operand : Json) : String :=
  match type with
  | .date => (Operand.dateText? operand.plainText).getD operand.plainText
  | _ => operand.plainText

/-! ### Scalar fields -/

/-- The row of a lower and an upper bound, if both are there and the type has ranges. -/
def range? (type : FieldType) (operators : Object) : Option (String × Value σ) := do
  let lower ← Entries.get? operators Operator.gte.word
  let upper ← Entries.get? operators Operator.lte.word
  let label ← type.label? .between
  return (label, .text (endpoint type lower ++ "," ++ endpoint type upper))

/-- The row of one operator, if the type offers it. -/
def single? (type : FieldType) (entry : String × Json) : Option (String × Value σ) :=
  if entry.1 = modeKey then none
  else do
    let operator ← Operator.ofWord? entry.1
    let label ← type.label? operator
    return (label, valueOf type operator entry.2)

/-- Labels and values of the rows of a scalar field.  What is no object stands for equality. -/
def scalarRows (type : FieldType) (value : Json) : List (String × Value σ) :=
  match value with
  | .object operators =>
    match range? type operators with
    | some row => [row]
    | none => operators.filterMap (single? type)
  | .null => []
  | literal =>
    match type.label? .equals with
    | some label => [(label, valueOf type .equals literal)]
    | none => []

/-! ### Relations -/

/-- The operators that say how many related items a filter is about. -/
def quantifiers : List Operator :=
  [.someRelated, .everyRelated, .noRelated]

/-- The filters inside a relation, each with its operator: those under a quantifier, else the one
under `is`, else the whole object if the relation leads to one item. -/
def innerFilters (field : Field σ) (operators : Object) : List (Operator × Object) :=
  let quantified := quantifiers.filterMap fun operator =>
    (Entries.get? operators operator.word).map fun inner => (operator, inner.entries)
  if !quantified.isEmpty then quantified
  else
    match Entries.get? operators Operator.related.word with
    | some inner => [(.related, inner.entries)]
    | none => if field.kind? = some .toOne then [(.related, operators)] else []

/-! ### Rows -/

/-- A restored row. -/
def rowOf (field : Field σ) (parent : Option String) (label : String) (value : Value σ) :
    Condition σ :=
  ⟨none, .field field, label, value, parent⟩

/-- How the filter inside a relation is restored, given the fields below it and its path. -/
abbrev Inner (σ : Type) :=
  List (Field σ) → Option String → Object → Lookup σ (List (Condition σ))

/-- The row of a filter inside a relation, and the rows inside it. -/
def innerRows (inner : Inner σ) (field : Field σ) (fields : List (Field σ))
    (parent : Option String) (path : String) (pair : Operator × Object) :
    Lookup σ (List (Condition σ)) :=
  match FieldType.relation.label? pair.1 with
  | none => return []
  | some label => do
    let rows ← inner fields (some path) pair.2
    return rowOf field parent label (.filter pair.2) :: rows

/-- The rows of a value of a relation. -/
def relationRows [Schema σ] (inner : Inner σ) (field : Field σ) (parent : Option String)
    (path : String) (value : Json) : Lookup σ (List (Condition σ)) :=
  match value with
  | .object operators => do
    let fields ← Resolver.relationFields field
    Lookup.flatMap (innerRows inner field fields parent path) (innerFilters field operators)
  | _ => return []

/-- The rows of the value of a field. -/
def fieldRows [Schema σ] (inner : Inner σ) (field : Field σ) (parent : Option String)
    (path : String) (value : Json) : Lookup σ (List (Condition σ)) :=
  if field.isRelation then relationRows inner field parent path value
  else return (scalarRows field.type value).map fun row => rowOf field parent row.1 row.2

/-- The path of a key inside a relation. -/
def pathOf (parent : Option String) (key : String) : String :=
  match parent with
  | some parent => parent ++ "__" ++ key
  | none => key

/-- A way of finding the field for a key that is reached by a path from a scope. -/
abbrev Finder (σ : Type) :=
  List (Field σ) → String → String → Lookup σ (Option (Field σ))

section Finder

variable [Schema σ] (find : Finder σ)

/-- The rows of one key, for any look-up of fields; none if no field has it. -/
def entryRowsBy (inner : Inner σ) (scope : List (Field σ)) (parent : Option String)
    (entry : String × Json) : Lookup σ (List (Condition σ)) := do
  match ← find scope entry.1 (pathOf parent entry.1) with
  | none => return []
  | some field => fieldRows inner field parent (pathOf parent entry.1) entry.2

/-- The rows of a filter from so many levels of relations, for any look-up of fields. -/
def levelRowsBy : Nat → Inner σ
  | 0, _, _, _ => return []
  | levels + 1, scope, parent, filter =>
    Lookup.flatMap (entryRowsBy find (levelRowsBy levels) scope parent) filter

end Finder

/-- The rows of one key, whose field is looked up by the resolver. -/
def entryRows [Schema σ] (inner : Inner σ) (scope : List (Field σ)) (parent : Option String)
    (entry : String × Json) : Lookup σ (List (Condition σ)) :=
  entryRowsBy Resolver.find inner scope parent entry

/-- The rows of a filter, from so many levels of relations. -/
def levelRows [Schema σ] (levels : Nat) : Inner σ :=
  levelRowsBy Resolver.find levels

end Restore

/-- A way of reading a filter against fields. -/
abbrev FilterReader (σ : Type) :=
  List (Field σ) → Object → List (Condition σ)

/-- The rows of a filter read with any look-up of fields and any number of levels. -/
def restoreBy [Schema σ] (find : Restore.Finder σ) (levels : Nat) : FilterReader σ :=
  fun fields filter => Resolver.eval fields (Restore.levelRowsBy find levels fields none filter)

/-- The rows of a filter, read against the fields of its scope. -/
def restore [Schema σ] (fields : List (Field σ)) (filter : Object) : List (Condition σ) :=
  restoreBy Resolver.find relationDepth fields filter

/-- The rows of a JSON value, which has none unless it is an object. -/
def restoreJson [Schema σ] (fields : List (Field σ)) : Option Json → List (Condition σ)
  | some (.object filter) => restore fields filter
  | _ => []

/-! ### What is kept is smaller -/

namespace Restore

/-- A filter inside a relation has at most as many nodes as the operators that it is read from. -/
theorem size_innerFilters_le {field : Field σ} {operators : Object} {pair : Operator × Object}
    (h : pair ∈ innerFilters field operators) :
    (Json.object pair.2).size ≤ (Json.object operators).size := by
  have below : ∀ {key : String} {inner : Json}, Entries.get? operators key = some inner →
      (Json.object inner.entries).size ≤ (Json.object operators).size := fun hget =>
    Nat.le_of_lt (Nat.lt_of_le_of_lt (Json.size_entries_le _)
      (Json.size_lt_of_mem (Entries.mem_of_get? hget)))
  unfold innerFilters at h
  simp only at h
  split at h
  · obtain ⟨operator, _, hop⟩ := List.mem_filterMap.1 h
    obtain ⟨inner, hget, rfl⟩ := Option.map_eq_some_iff.1 hop
    exact below hget
  · split at h
    · rename_i hget
      simp only [List.mem_singleton] at h
      subst h
      exact below hget
    · split at h
      · simp only [List.mem_singleton] at h
        subst h
        exact Nat.le_refl _
      · simp at h

/-- A restored row weighs what its value weighs. -/
@[simp] theorem weight_rowOf (field : Field σ) (parent : Option String) (label : String)
    (value : Value σ) : (rowOf field parent label value).weight = value.weight := by
  simp [rowOf, Condition.weight]

/-- The value of an operand holds nothing that is still to be read. -/
theorem weight_valueOf (type : FieldType) (operator : Operator) (operand : Json) :
    (valueOf type operator operand : Value σ).weight = 0 := by
  unfold valueOf
  split <;> (try split) <;> (try split) <;> simp [Value.weight]

/-- Rows of scalar fields hold nothing that is still to be read. -/
theorem weight_of_mem_scalarRows {type : FieldType} {value : Json} {row : String × Value σ}
    (h : row ∈ scalarRows type value) : row.2.weight = 0 := by
  unfold scalarRows at h
  split at h
  · rename_i operators
    split at h
    · rename_i found hr
      simp only [List.mem_singleton] at h
      subst h
      simp only [range?, bind, Option.bind_eq_some_iff, pure, Option.some.injEq] at hr
      obtain ⟨_, _, _, _, _, _, rfl⟩ := hr
      rfl
    · obtain ⟨entry, _, hs⟩ := List.mem_filterMap.1 h
      unfold single? at hs
      split at hs
      · simp at hs
      · simp only [bind, Option.bind_eq_some_iff, pure, Option.some.injEq] at hs
        obtain ⟨_, _, _, _, rfl⟩ := hs
        exact weight_valueOf _ _ _
  · simp at h
  · split at h
    · simp only [List.mem_singleton] at h
      subst h
      exact weight_valueOf _ _ _
    · simp at h

/-- Rows of a relation weigh no more than its value, if the rows inside it weigh less than the
filters that they are read from. -/
theorem weight_le_of_mem_relationRows [Schema σ] {inner : Inner σ}
    (hinner : ∀ fields path filter resolver, ∀ row ∈ (inner fields path filter resolver).1,
      row.weight < (Json.object filter).size)
    {field : Field σ} {parent : Option String} {path : String} {value : Json}
    {resolver : Resolver σ} {row : Condition σ}
    (h : row ∈ (relationRows inner field parent path value resolver).1) :
    row.weight ≤ value.size := by
  unfold relationRows at h
  split at h
  · rename_i operators
    rw [Lookup.run_bind] at h
    obtain ⟨pair, hpair, r', hrow⟩ := Lookup.mem_flatMap h
    have hle := size_innerFilters_le hpair
    cases hlabel : FieldType.relation.label? pair.1 with
    | none => simp [innerRows, hlabel] at hrow
    | some label =>
      simp only [innerRows, hlabel, Lookup.run_bind, Lookup.run_pure, List.mem_cons] at hrow
      rcases hrow with rfl | hrow
      · simpa [Value.weight] using hle
      · exact Nat.le_of_lt (Nat.lt_of_lt_of_le (hinner _ _ _ _ _ hrow) hle)
  · simp at h

/-- Whatever field is found for a key, its rows weigh no more than its value. -/
theorem weight_le_of_mem_entryRowsBy [Schema σ] {find : Finder σ} {inner : Inner σ}
    (hinner : ∀ fields path filter resolver, ∀ row ∈ (inner fields path filter resolver).1,
      row.weight < (Json.object filter).size)
    {scope : List (Field σ)} {parent : Option String} {entry : String × Json}
    {resolver : Resolver σ} {row : Condition σ}
    (h : row ∈ (entryRowsBy find inner scope parent entry resolver).1) :
    row.weight ≤ entry.2.size := by
  unfold entryRowsBy at h
  rw [Lookup.run_bind] at h
  generalize find scope entry.1 (pathOf parent entry.1) resolver = found at h
  obtain ⟨found, resolver'⟩ := found
  cases found with
  | none => exact absurd h List.not_mem_nil
  | some field =>
    unfold fieldRows at h
    cases hfield : field.isRelation with
    | true => exact weight_le_of_mem_relationRows hinner (by simpa [hfield] using h)
    | false =>
      simp only [hfield, Bool.false_eq_true, if_false, Lookup.run_pure, List.mem_map] at h
      obtain ⟨pair, hpair, rfl⟩ := h
      simp [weight_of_mem_scalarRows hpair]

/-- Whatever fields are found, and from however many levels, rows weigh less than their filter. -/
theorem weight_lt_of_mem_levelRowsBy [Schema σ] {find : Finder σ} {levels : Nat}
    {scope : List (Field σ)} {parent : Option String} {filter : Object} {resolver : Resolver σ}
    {row : Condition σ} (h : row ∈ (levelRowsBy find levels scope parent filter resolver).1) :
    row.weight < (Json.object filter).size := by
  induction levels generalizing scope parent filter resolver row with
  | zero => exact absurd h List.not_mem_nil
  | succ levels ih =>
    obtain ⟨entry, hentry, _, hrow⟩ := Lookup.mem_flatMap h
    have hle := weight_le_of_mem_entryRowsBy (fun _ _ _ _ _ hr => ih hr) hrow
    have hlt := Json.size_lt_of_mem (show (entry.1, entry.2) ∈ filter from hentry)
    exact Nat.lt_of_le_of_lt hle hlt

end Restore

/-- Rows weigh less than the filter that they are read from; in particular the filters that rows
keep are smaller than it. -/
def FilterReader.Shrinks (read : FilterReader σ) : Prop :=
  ∀ fields filter, ∀ row ∈ read fields filter, row.weight < (Json.object filter).size

/-- Reading shrinks whatever fields are found and however many levels are read. -/
theorem shrinks_restoreBy [Schema σ] (find : Restore.Finder σ) (levels : Nat) :
    (restoreBy find levels).Shrinks :=
  fun _ _ _ => Restore.weight_lt_of_mem_levelRowsBy

/-- Rows together weigh less than a bound that each of them is below. -/
theorem rowsWeight_lt {rows : List (Condition σ)} {n : Nat} (hn : 0 < n)
    (h : ∀ row ∈ rows, row.weight < n) : rowsWeight rows < n := by
  induction rows with
  | nil => exact hn
  | cons row rows ih =>
    have hrow := h row List.mem_cons_self
    have hrows := ih fun other hother => h other (List.mem_cons_of_mem _ hother)
    rw [rowsWeight]
    exact Nat.max_lt.2 ⟨hrow, hrows⟩

/-- All rows of a filter together weigh less than it. -/
theorem FilterReader.Shrinks.rowsWeight_lt {read : FilterReader σ} (h : read.Shrinks)
    (fields : List (Field σ)) (filter : Object) :
    rowsWeight (read fields filter) < (Json.object filter).size :=
  QueryFilter.rowsWeight_lt (Json.size_pos _) (h fields filter)

/-- Restored rows weigh less than the filter that they are restored from. -/
theorem shrinks_restore [Schema σ] : FilterReader.Shrinks (restore : FilterReader σ) :=
  shrinks_restoreBy Resolver.find relationDepth

/-- Every restored row weighs less than its filter. -/
theorem weight_lt_of_mem_restore [Schema σ] {fields : List (Field σ)} {filter : Object}
    {row : Condition σ} (h : row ∈ restore fields filter) :
    row.weight < (Json.object filter).size :=
  shrinks_restore fields filter row h

end QueryFilter
