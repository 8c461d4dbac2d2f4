import QueryFilter.Proofs.Entries.Joined
import QueryFilter.Proofs.Filter.Compile

/-!
# Compiling rows one after the other

The filter of some rows followed by others is the filter of the first joined with that of the
others, path by path and operator by operator, where no filter counts for nothing
(`compile_append`).  So a filter can be compiled in parts.  Its paths and operators are those that
rows write, neither more nor less (`Wrote`).
-/

namespace QueryFilter

variable {σ : Type}

namespace Compile

/-- The operators of two filters at one path: an operator of both has the operand of the second. -/
def joinedOperators (a b : Json) : Json :=
  .object (Entries.joined (fun _ later => later) a.entries b.entries)

/-- Two filters joined path by path. -/
def joined (a b : Object) : Object :=
  Entries.joined joinedOperators a b

/-- A filter has the paths at which rows write, and at each path the operators that rows write
there. -/
structure Wrote [Schema σ] (rows : List (Condition σ)) (filter : Object) : Prop where
  paths : ∀ path, path ∈ Entries.keys filter ↔
    ∃ row ∈ rows, ∃ part, fragment? row = some (path, part)
  operators : ∀ path value, (path, value) ∈ filter → ∃ operators, value = .object operators ∧
    ∀ key, key ∈ Entries.keys operators ↔
      ∃ row ∈ rows, ∃ part, fragment? row = some (path, part) ∧ key ∈ Entries.keys part

/-! ### Fragments -/

/-- United operators have each key once. -/
theorem distinct_united (parts : List Object) : Entries.Distinct (united parts) :=
  Entries.distinct_foldl_extend Entries.distinct_nil parts

/-- Fragments may be united in two parts. -/
theorem united_append (a b : List Object) :
    united (a ++ b) = Entries.extend (united a) (united b) := by
  have hall : ∀ written : Object, Entries.Distinct written →
      b.foldl Entries.extend (Entries.extend (united a) written) =
        Entries.extend (united a) (b.foldl Entries.extend written) := by
    induction b with
    | nil => exact fun _ _ => rfl
    | cons part b ih =>
      intro written hwritten
      rw [List.foldl_cons, List.foldl_cons, ← ih _ (hwritten.extend part),
        Entries.extend_extend (distinct_united a) hwritten]
  rw [united, List.foldl_append]
  exact hall [] Entries.distinct_nil

/-- United operators have the keys of the parts. -/
theorem mem_keys_united {parts : List Object} {key : String} :
    key ∈ Entries.keys (united parts) ↔ ∃ part ∈ parts, key ∈ Entries.keys part := by
  rw [united, Entries.mem_keys_foldl_extend, Entries.keys_nil]
  simp

/-- The fragments at a target are found part by part. -/
theorem fragmentsAt_append (target : String) (a b : List (String × Object)) :
    fragmentsAt target (a ++ b) = fragmentsAt target a ++ fragmentsAt target b := by
  rw [fragmentsAt, List.filter_append, List.map_append]
  rfl

variable [Schema σ]

/-- The fragments at a path are those that rows write there. -/
theorem mem_fragmentsAt {rows : List (Condition σ)} {target : String} {part : Object} :
    part ∈ fragmentsAt target (rows.filterMap fragment?) ↔
      ∃ row ∈ rows, fragment? row = some (target, part) := by
  rw [fragmentsAt, List.mem_map]
  constructor
  · rintro ⟨⟨key, _⟩, hmem, rfl⟩
    obtain ⟨hfragment, hkey⟩ := List.mem_filter.1 hmem
    obtain rfl : key = target := by simpa using hkey
    exact List.mem_filterMap.1 hfragment
  · rintro ⟨row, hrow, hwrites⟩
    have hfragment : (target, part) ∈ rows.filterMap fragment? :=
      List.mem_filterMap.2 ⟨row, hrow, hwrites⟩
    exact ⟨_, List.mem_filter.2 ⟨hfragment, beq_self_eq_true target⟩, rfl⟩

/-- A compiled filter is what its rows wrote. -/
theorem wrote_compileRows (rows : List (Condition σ)) : Wrote rows (compileRows rows) where
  paths _ := mem_keys_compileRows
  operators := by
    intro path value hmem
    have hget := (distinct_compileRows rows).get?_of_mem hmem
    rw [get?_compileRows (Entries.mem_keys_of_mem hmem)] at hget
    refine ⟨_, (Option.some.inj hget).symm, fun key => ?_⟩
    rw [mem_keys_united]
    constructor
    · rintro ⟨part, hpart, hkey⟩
      obtain ⟨row, hrow, hwrites⟩ := mem_fragmentsAt.1 hpart
      exact ⟨row, hrow, part, hwrites, hkey⟩
    · rintro ⟨row, hrow, part, hwrites, hkey⟩
      exact ⟨part, mem_fragmentsAt.2 ⟨row, hrow, hwrites⟩, hkey⟩

/-! ### Rows followed by rows -/

/-- The paths of the first rows come in their order, then the new paths of the others. -/
theorem keys_compileRows_append (xs ys : List (Condition σ)) :
    Entries.keys (compileRows (xs ++ ys)) = Entries.keys (compileRows xs) ++
      (Entries.keys (compileRows ys)).filter fun key => key ∉ Entries.keys (compileRows xs) := by
  simp only [compileRows_eq, keys_toFilter]
  rw [List.filterMap_append, merge, List.foldl_append]
  exact Entries.keys_foldl_alter (fun part old => Entries.extend (old.getD []) part) _ _

/-- At a path the operators of the first rows are joined with those of the others. -/
theorem get?_compileRows_append (xs ys : List (Condition σ)) (path : String) :
    Entries.get? (compileRows (xs ++ ys)) path =
      Option.merge joinedOperators (Entries.get? (compileRows xs) path)
        (Entries.get? (compileRows ys) path) := by
  have hnone : ∀ rows : List (Condition σ), path ∉ Entries.keys (compileRows rows) →
      fragmentsAt path (rows.filterMap fragment?) = [] := by
    intro rows h
    rwa [compileRows_eq, keys_toFilter, mem_keys_merge, ← fragmentsAt_eq_nil] at h
  have hkeys := congrArg (path ∈ ·) (keys_compileRows_append xs ys)
  simp only [List.mem_append, List.mem_filter, decide_eq_true_eq] at hkeys
  by_cases hx : path ∈ Entries.keys (compileRows xs)
  · rw [get?_compileRows (hkeys ▸ .inl hx), get?_compileRows hx, List.filterMap_append,
      fragmentsAt_append]
    by_cases hy : path ∈ Entries.keys (compileRows ys)
    · rw [get?_compileRows hy, united_append,
        Entries.extend_eq_joined (distinct_united _) (distinct_united _)]
      rfl
    · rw [Entries.get?_eq_none.2 hy, hnone ys hy, List.append_nil, Option.merge_none_right]
  · rw [Entries.get?_eq_none.2 hx, Option.merge_none_left]
    by_cases hy : path ∈ Entries.keys (compileRows ys)
    · rw [get?_compileRows (hkeys ▸ .inr ⟨hy, hx⟩), get?_compileRows hy, List.filterMap_append,
        fragmentsAt_append, hnone xs hx, List.nil_append]
    · have hneither : path ∉ Entries.keys (compileRows (xs ++ ys)) := by
        rw [hkeys]
        exact not_or.2 ⟨hx, fun h => hy h.1⟩
      rw [Entries.get?_eq_none.2 hy, Entries.get?_eq_none.2 hneither]

/-- The filter of joined rows is the join of both filters. -/
theorem compileRows_append (xs ys : List (Condition σ)) :
    compileRows (xs ++ ys) = joined (compileRows xs) (compileRows ys) := by
  refine Entries.eq_of_get? (distinct_compileRows _) ?_ fun path => ?_
  · rw [keys_compileRows_append, joined, Entries.keys_joined]
  · rw [get?_compileRows_append, joined, Entries.get?_joined]

end Compile

open Compile

variable [Schema σ]

/-- Compiling in parts: the filter of rows that follow others is joined with the filter of these,
and no filter is neutral.  The filter has the paths and the operators that rows write, and no
others. -/
theorem compile_append (xs ys : List (Condition σ)) :
    compile (xs ++ ys) = Option.merge joined (compile xs) (compile ys) ∧
      Wrote (xs ++ ys) ((compile (xs ++ ys)).getD []) := by
  constructor
  · have hnone : compile ([] : List (Condition σ)) = none := rfl
    by_cases hx : xs = []
    · rw [hx, List.nil_append, hnone, Option.merge_none_left]
    by_cases hy : ys = []
    · rw [hy, List.append_nil, hnone, Option.merge_none_right]
    have hall : xs ++ ys ≠ [] := fun hnil => hx (List.append_eq_nil_iff.1 hnil).1
    rw [compile_of_ne_nil hall, compile_of_ne_nil hx, compile_of_ne_nil hy, compileRows_append]
    rfl
  · rw [getD_compile]
    exact wrote_compileRows _

end QueryFilter
