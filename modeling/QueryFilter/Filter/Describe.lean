import QueryFilter.Filter.Restore

/-!
# Rows in words

A row is shown as a sentence, `Idade entre 18 e 30`, or as a chip with the glyph of the operator,
`Idade ≥ 18`.  Rows inside a relation stand in parentheses.

`sentence` also reads the filter of a restored relation row, against the fields below the relation.
-/

namespace QueryFilter

variable {σ : Type}

namespace Describe

/-- What stands for a value that is still to come. -/
def ellipsis : String := "…"

/-- The word between two things. -/
def conjunction : String := "e"

/-- Sentences inside a relation, in parentheses; nothing for none. -/
def enclose (sentences : List String) : String :=
  if sentences.isEmpty then ""
  else "(" ++ Text.joinWith (" " ++ conjunction ++ " ") sentences ++ ")"

/-- The two ends of a range as they are shown. -/
def range? (value : Value σ) : Option (String × String) :=
  match value with
  | .text raw =>
    (Text.cut? ',' raw).map fun ends => (Text.trim ends.1, Text.trim ends.2)
  | .list [lower, upper] => some (lower, upper)
  | _ => none

/-- A value in words, given the sentences of the rows inside it. -/
def valueWords (value : Value σ) (inner : List String) : String :=
  match value with
  | .text raw => Text.trim raw
  | .list texts => Text.joinWith ", " texts
  | .bool true => "sim"
  | .bool false => "não"
  | .conditions _ => enclose inner
  | .filter entries => (Json.object entries).text

/-- A row in words: its label, a word for the operator, and its value, for which the sentences of
the rows inside it are given. -/
def render (row : Condition σ) (word : String) (inner : List String) : String :=
  if row.isDraft then row.label ++ " " ++ ellipsis
  else
    match if row.operator = betweenLabel then range? row.value else none with
    | some (lower, upper) =>
      row.label ++ " " ++ word ++ " " ++ lower ++ " " ++ conjunction ++ " " ++ upper
    | none =>
      let words := valueWords row.value inner
      if words = "" then row.label ++ " " ++ word else row.label ++ " " ++ word ++ " " ++ words

mutual

/-- A row in words, with a choice of words for operators. -/
def withWords (word : Condition σ → String) : Condition σ → String
  | ⟨id, subject, operator, value, parent⟩ =>
    let row : Condition σ := ⟨id, subject, operator, value, parent⟩
    render row (word row) (innerWithWords word value)

/-- The rows inside a value in words. -/
def innerWithWords (word : Condition σ → String) : Value σ → List String
  | .conditions rows => rowsWithWords word rows
  | _ => []

/-- Rows in words. -/
def rowsWithWords (word : Condition σ → String) : List (Condition σ) → List String
  | [] => []
  | row :: rows => withWords word row :: rowsWithWords word rows

end

/-- Rows are put into words one by one. -/
theorem rowsWithWords_eq_map (word : Condition σ → String) (rows : List (Condition σ)) :
    rowsWithWords word rows = rows.map (withWords word) := by
  induction rows with
  | nil => rfl
  | cons row rows ih => simp [rowsWithWords, ih]

/-- The glyph of a row's operator, or the operator itself if its field has none. -/
def glyph (row : Condition σ) : String :=
  (row.field?.bind fun field => field.type.glyph? row.operator).getD row.operator

end Describe

namespace Condition

open Describe

/-- A row as a sentence, with restored filters as JSON. -/
def plainSentence (row : Condition σ) : String :=
  withWords Condition.operator row

/-- A row as a chip. -/
def chip (row : Condition σ) : String :=
  withWords glyph row

/-- The rows of the filter that a row keeps weigh less than the row. -/
theorem weight_lt_of_restored [Schema σ] {row sub : Condition σ} {fields : List (Field σ)}
    {filter : Object} (h : row.value = .filter filter) (hsub : sub ∈ restore fields filter) :
    sub.weight < row.weight := by
  rw [row.weight_eq, h]
  exact weight_lt_of_mem_restore hsub

/-- The rows that a row holds weigh less than the row. -/
theorem weight_lt_of_content {row sub : Condition σ} {rows : List (Condition σ)}
    (h : row.value = .conditions rows) (hsub : sub ∈ rows) : sub.weight < row.weight := by
  rw [row.weight_eq, h]
  exact Nat.lt_of_le_of_lt (weight_le_rowsWeight hsub) (Nat.lt_add_of_pos_left Nat.one_pos)

/-- A row as a sentence, with restored filters in words. -/
def sentence [Schema σ] (row : Condition σ) : Lookup σ String :=
  match hvalue : row.value with
  | .filter filter =>
    match row.field? with
    | none => return render row row.operator []
    | some field =>
      if field.isRelation then do
        let fields ← Resolver.relationFields field
        let inner := (restore fields filter).filter fun sub => sub.parent.isNone
        let sentences ← inner.attach.mapM fun (sub : { sub // sub ∈ inner }) =>
          have : sub.1.weight < row.weight :=
            weight_lt_of_restored hvalue (List.mem_filter.1 sub.2).1
          sentence sub.1
        let head := row.label ++ " " ++ row.operator
        return if sentences.isEmpty then head else head ++ " " ++ enclose sentences
      else return row.plainSentence
  | .conditions rows =>
    -- a draft does not show the rows that it holds, so that nothing is looked up for them
    if row.isDraft then return render row row.operator []
    else do
      let sentences ← rows.attach.mapM fun (sub : { sub // sub ∈ rows }) =>
        have : sub.1.weight < row.weight := weight_lt_of_content hvalue sub.2
        sentence sub.1
      return render row row.operator sentences
  | _ => return render row row.operator []
termination_by row.weight

end Condition

end QueryFilter
