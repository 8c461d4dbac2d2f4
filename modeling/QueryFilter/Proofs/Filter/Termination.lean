import QueryFilter.Filter.Restore

/-!
# What rows keep is smaller

Compiling a row on a relation and putting it into words read the filter that the row keeps anew,
with all levels of relations to go, so that it is not the limit on the levels that ends these
recursions.  What ends them is that rows weigh less than the filter that they are read from
(`FilterReader.Shrinks`): there is no way inside without end (`wellFounded_standInside`).

This holds whatever fields are found for the keys and however many levels are read, so that it does
not matter whether a schema leads back to itself.  From as many levels as a filter has nodes all of
it is read (`restoreBy_of_le`).
-/

namespace QueryFilter

open Restore

variable {σ : Type}

/-! ### Reading without a limit -/

namespace Lookup

/-- Computations that agree on the values at hand agree on their joined lists. -/
theorem flatMap_congr {α β : Type} {f g : α → Lookup σ (List β)} {xs : List α}
    (h : ∀ x ∈ xs, f x = g x) : flatMap f xs = flatMap g xs := by
  induction xs with
  | nil => rfl
  | cons x xs ih =>
    rw [flatMap, flatMap, h x List.mem_cons_self, ih fun y hy => h y (List.mem_cons_of_mem _ hy)]

end Lookup

namespace Restore

variable [Schema σ] {find : Finder σ}

/-- The rows of a value depend on how the filters inside it are read. -/
theorem fieldRows_congr {inner other : Inner σ} {value : Json}
    (h : ∀ fields path filter, (Json.object filter).size ≤ value.size →
      inner fields (some path) filter = other fields (some path) filter)
    (field : Field σ) (parent : Option String) (path : String) :
    fieldRows inner field parent path value = fieldRows other field parent path value := by
  unfold fieldRows
  split
  · cases value with
    | object operators =>
      rw [relationRows, relationRows]
      congr 1
      funext fields
      refine Lookup.flatMap_congr fun pair hpair => ?_
      rw [innerRows, innerRows, h fields path pair.2 (size_innerFilters_le hpair)]
    | _ => rfl
  · rfl

/-- From as many levels as a filter has nodes all of it is read. -/
theorem levelRowsBy_succ {levels : Nat} {filter : Object}
    (h : (Json.object filter).size ≤ levels) (scope : List (Field σ)) (parent : Option String) :
    levelRowsBy find (levels + 1) scope parent filter =
      levelRowsBy find levels scope parent filter := by
  induction levels generalizing scope parent filter with
  | zero => exact absurd (Json.size_pos (.object filter)) (by omega)
  | succ levels ih =>
    rw [levelRowsBy, levelRowsBy]
    refine Lookup.flatMap_congr fun entry hentry => ?_
    have hsize : entry.2.size ≤ levels := by
      have hlt := Json.size_lt_of_mem (show (entry.1, entry.2) ∈ filter from hentry)
      omega
    unfold entryRowsBy
    congr 1
    funext found
    cases found with
    | none => rfl
    | some field =>
      exact fieldRows_congr (fun fields path inner hle => ih (Nat.le_trans hle hsize) fields _)
        field parent _

/-- A limit beyond the number of nodes cuts off nothing. -/
theorem restoreBy_of_le {levels : Nat} {filter : Object} (h : (Json.object filter).size ≤ levels)
    (fields : List (Field σ)) :
    restoreBy find levels fields filter =
      restoreBy find (Json.object filter).size fields filter := by
  induction h with
  | refl => rfl
  | step hle ih => rw [← ih, restoreBy, restoreBy, levelRowsBy_succ hle]

end Restore

/-! ### Rows inside rows -/

/-- Rows stand inside other rows: one of these holds them, or keeps a filter that is read as
them, against whatever fields. -/
inductive StandInside (read : FilterReader σ) :
    List (Condition σ) → List (Condition σ) → Prop
  | held {row : Condition σ} {rows inner : List (Condition σ)} (hrow : row ∈ rows)
      (hvalue : row.value = .conditions inner) : StandInside read inner rows
  | kept {row : Condition σ} {rows : List (Condition σ)} {filter : Object} (hrow : row ∈ rows)
      (hvalue : row.value = .filter filter) (fields : List (Field σ)) :
      StandInside read (read fields filter) rows

section Shrinks

variable {read : FilterReader σ} (h : read.Shrinks)

include h

/-- Rows inside rows weigh less. -/
theorem StandInside.rowsWeight_lt {inner rows : List (Condition σ)}
    (hinside : StandInside read inner rows) : rowsWeight inner < rowsWeight rows := by
  cases hinside with
  | held hrow hvalue =>
    have hle := weight_le_rowsWeight hrow
    rw [Condition.weight_eq, hvalue, Value.weight] at hle
    omega
  | kept hrow hvalue fields =>
    have hle := weight_le_rowsWeight hrow
    rw [Condition.weight_eq, hvalue, Value.weight] at hle
    exact Nat.lt_of_lt_of_le (h.rowsWeight_lt fields _) hle

/-- There is no way inside without end. -/
theorem wellFounded_standInside : WellFounded (StandInside read) :=
  Subrelation.wf (StandInside.rowsWeight_lt h) (InvImage.wf rowsWeight Nat.lt_wfRel.wf)

end Shrinks

end QueryFilter
