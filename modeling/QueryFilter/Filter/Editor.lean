import QueryFilter.Filter.Compile
import QueryFilter.Filter.Describe
import QueryFilter.Operator.Compatibility
import QueryFilter.Query.Bracket

/-!
# Editing a filter

A filter is edited as a list of rows, step by step.  Beside the rows an editor keeps the filter that
was last compiled or read, and the query string that was last written or given; each step changes
one of the three.
-/

namespace QueryFilter

variable {σ : Type}

/-- A filter under edit. -/
structure Editor (σ : Type) where
  rows : List (Condition σ)
  filter : Option Object
  url : String

/-- A change of one row. -/
inductive RowEdit (σ : Type) where
  /-- Move the row to another field, with a new operator and value. -/
  | field (field : Field σ)
  | operator (label : String)
  | value (value : Value σ)
  | parent (path : Option String)
  | remove

/-- A step of editing. -/
inductive EditStep (σ : Type) where
  /-- Start a new row on a field. -/
  | add (field : Field σ)
  /-- Append a row as it is. -/
  | push (row : Condition σ)
  /-- Change the row with a given number. -/
  | edit (place : Nat) (change : RowEdit σ)
  /-- Make the filter of the rows. -/
  | compile
  /-- Write the filter as a query string. -/
  | write
  /-- Take another query string. -/
  | enter (url : String)
  /-- Read the query string as a filter. -/
  | read
  /-- Make the rows of the filter. -/
  | restore

/-- What a changed row becomes, if it stays. -/
def RowEdit.apply (row : Condition σ) : RowEdit σ → Option (Condition σ)
  | .field target => some (row.changeField target)
  | .operator label => some { row with operator := label }
  | .value entered => some { row with value := entered }
  | .parent path => some { row with parent := path }
  | .remove => none

namespace Editor

/-- An editor in which nothing was done. -/
def empty : Editor σ := ⟨[], none, ""⟩

/-- Whether a step names a row that does not exist. -/
def misses (editor : Editor σ) : EditStep σ → Bool
  | .edit place _ => editor.rows.length ≤ place
  | _ => false

/-- The rows with one of them changed. -/
def editRows (rows : List (Condition σ)) (place : Nat) (change : RowEdit σ) :
    List (Condition σ) :=
  match rows[place]? with
  | none => rows
  | some row =>
    match change.apply row with
    | some row => rows.set place row
    | none => rows.eraseIdx place

/-- The editor after a step over the fields of a schema.  Nothing changes if the row of the step
does not exist. -/
def step [Schema σ] (root : List (Field σ)) (editor : Editor σ) : EditStep σ → Editor σ
  | .add field => { editor with rows := editor.rows ++ [.forField none field] }
  | .push row => { editor with rows := editor.rows ++ [row] }
  | .edit place change => { editor with rows := editRows editor.rows place change }
  | .compile => { editor with filter := QueryFilter.compile editor.rows }
  | .write =>
    { editor with
      url := (editor.filter.map fun filter =>
        Query.serialize .standard "" (.object filter)).getD "" }
  | .enter url => { editor with url }
  | .read => { editor with filter := Query.deserialize editor.url }
  | .restore =>
    { editor with rows := (editor.filter.map (QueryFilter.restore root)).getD [] }

/-- The labels that the other rows exclude on a field while the row with a given number is edited.
A row with an identity is left out with all that share the identity. -/
def disabledLabels (editor : Editor σ) (field : Field σ) (editing : Option Nat) : List String :=
  match editing.bind fun place => editor.rows[place]?.map (place, ·) with
  | none => QueryFilter.disabledLabels field editor.rows none
  | some (place, row) =>
    match row.id with
    | some id => QueryFilter.disabledLabels field editor.rows (some id)
    | none => QueryFilter.disabledLabels field (editor.rows.eraseIdx place) none

/-! ### Small lemmas -/

/-- A step that misses its row changes nothing. -/
theorem step_of_misses [Schema σ] {root : List (Field σ)} {editor : Editor σ} {change : EditStep σ}
    (h : editor.misses change = true) : editor.step root change = editor := by
  cases change with
  | edit place change =>
    have h : editor.rows.length ≤ place := by simpa [misses] using h
    simp [step, editRows, List.getElem?_eq_none h]
  | _ => simp [misses] at h

end Editor

end QueryFilter
