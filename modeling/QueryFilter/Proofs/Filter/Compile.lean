import Mathlib.Data.List.Basic
import QueryFilter.Filter.Compile
import QueryFilter.Proofs.Filter.Restore

/-!
# What rows write

The filter of rows has at each target the fragments that rows write there, one after the other
(`get?_compileRows`); its keys are the targets of the rows that write (`mem_keys_compileRows`).  If
no two rows write at one target the filter lists the fragments as they are
(`compileRows_of_distinct`).

Rows from inside a relation write nothing, so that the filter of restored rows is that of the rows
without a parent (`compileRows_topLevel`).
-/

namespace QueryFilter.Compile

variable {σ : Type}

/-! ### Merging -/

/-- The fragments at a target, in order. -/
def fragmentsAt (target : String) (fragments : List (String × Object)) : List Object :=
  (fragments.filter fun fragment => fragment.1 == target).map Prod.snd

/-- The operators of fragments, written one after the other. -/
def united (fragments : List Object) : Object :=
  fragments.foldl Entries.extend []

/-- What holds of each of some fragments, and of two that are written one after the other, holds of
all of them together. -/
theorem united_induction {motive : Object → Prop} {fragments : List Object} (hne : fragments ≠ [])
    (hdistinct : ∀ fragment, motive fragment → Entries.Distinct fragment)
    (hextend : ∀ a b, motive a → motive b → motive (Entries.extend a b))
    (h : ∀ fragment ∈ fragments, motive fragment) : motive (united fragments) := by
  have hfold : ∀ fragments : List Object, (∀ fragment ∈ fragments, motive fragment) →
      ∀ written, motive written → motive (fragments.foldl Entries.extend written) := by
    intro fragments
    induction fragments with
    | nil => exact fun _ _ hwritten => hwritten
    | cons fragment fragments ih =>
      intro h written hwritten
      exact ih (fun other hother => h other (List.mem_cons_of_mem _ hother)) _
        (hextend _ _ hwritten (h fragment List.mem_cons_self))
  cases fragments with
  | nil => exact absurd rfl hne
  | cons first fragments =>
    have hfirst := h first List.mem_cons_self
    rw [united, List.foldl_cons, Entries.extend_nil_left (hdistinct first hfirst)]
    exact hfold fragments (fun other hother => h other (List.mem_cons_of_mem _ hother)) first hfirst

/-- There are no fragments exactly at the targets at which none is written. -/
theorem fragmentsAt_eq_nil {target : String} {fragments : List (String × Object)} :
    fragmentsAt target fragments = [] ↔ target ∉ Entries.keys fragments := by
  rw [fragmentsAt, List.map_eq_nil_iff, List.filter_eq_nil_iff, Entries.mem_keys]
  constructor
  · rintro h ⟨fragment, hmem⟩
    exact absurd (h _ hmem) (by simp)
  · intro h fragment hmem heq
    rw [beq_iff_eq] at heq
    exact h ⟨fragment.2, heq ▸ hmem⟩

/-- Targets that occur once still do after fragments are added. -/
theorem distinct_foldl_addFragment {groups : Entries Object} (h : Entries.Distinct groups)
    (fragments : List (String × Object)) :
    Entries.Distinct (fragments.foldl addFragment groups) := by
  induction fragments generalizing groups with
  | nil => exact h
  | cons fragment fragments ih => exact ih (h.alter _ _)

/-- Merged fragments have each target once. -/
theorem distinct_merge (fragments : List (String × Object)) : Entries.Distinct (merge fragments) :=
  distinct_foldl_addFragment Entries.distinct_nil fragments

/-- The targets after adding fragments are those from before and those of the fragments. -/
theorem mem_keys_foldl_addFragment {groups : Entries Object} {fragments : List (String × Object)}
    {target : String} : target ∈ Entries.keys (fragments.foldl addFragment groups) ↔
      target ∈ Entries.keys groups ∨ target ∈ Entries.keys fragments := by
  induction fragments generalizing groups with
  | nil => simp
  | cons fragment fragments ih =>
    rw [List.foldl_cons, ih, addFragment, Entries.mem_keys_alter, Entries.keys_cons, List.mem_cons]
    exact or_assoc

/-- Merged fragments have the targets of the fragments. -/
theorem mem_keys_merge {fragments : List (String × Object)} {target : String} :
    target ∈ Entries.keys (merge fragments) ↔ target ∈ Entries.keys fragments := by
  rw [merge, mem_keys_foldl_addFragment]
  simp

/-- At a target stand the operators from before, extended by those of its fragments in turn. -/
theorem get?_foldl_addFragment {groups : Entries Object} {fragments : List (String × Object)}
    {target : String} (h : target ∈ Entries.keys (fragments.foldl addFragment groups)) :
    Entries.get? (fragments.foldl addFragment groups) target =
      some ((fragmentsAt target fragments).foldl Entries.extend
        ((Entries.get? groups target).getD [])) := by
  induction fragments generalizing groups with
  | nil =>
    obtain ⟨operators, hget⟩ := Entries.exists_get? h
    rw [List.foldl_nil] at hget ⊢
    rw [hget]
    rfl
  | cons fragment fragments ih =>
    obtain ⟨t, operators⟩ := fragment
    rw [List.foldl_cons] at h ⊢
    rw [ih h]
    by_cases heq : t = target
    · subst heq
      have hat : fragmentsAt t ((t, operators) :: fragments) =
          operators :: fragmentsAt t fragments := by simp [fragmentsAt]
      rw [addFragment, Entries.get?_alter_self, hat, List.foldl_cons, Option.getD_some]
    · have hat : fragmentsAt target ((t, operators) :: fragments) =
          fragmentsAt target fragments := by simp [fragmentsAt, heq]
      rw [addFragment, Entries.get?_alter_of_ne (Ne.symm heq), hat]

/-- What stands at a target is all that was written there. -/
theorem get?_merge {fragments : List (String × Object)} {target : String}
    (h : target ∈ Entries.keys fragments) :
    Entries.get? (merge fragments) target = some (united (fragmentsAt target fragments)) :=
  get?_foldl_addFragment (mem_keys_merge.2 h)

/-- The operators that some fragments write at a target; there are none without fragments. -/
def group? (target : String) (parts : List Object) : Option (String × Object) :=
  if parts.isEmpty then none else some (target, united parts)

/-- Fragments at a new target make a new group. -/
theorem foldl_addFragment_group {groups : Entries Object} {target : String}
    (h : target ∉ Entries.keys groups) (parts : List Object) :
    (parts.map fun part => (target, part)).foldl addFragment groups =
      groups ++ (group? target parts).toList := by
  have hadd : ∀ (parts : List Object) (written : Object),
      (parts.map fun part => (target, part)).foldl addFragment (groups ++ [(target, written)]) =
        groups ++ [(target, parts.foldl Entries.extend written)] := by
    intro parts
    induction parts with
    | nil => exact fun _ => rfl
    | cons part parts ih =>
      intro written
      have hfirst : addFragment (groups ++ [(target, written)]) (target, part) =
          groups ++ [(target, Entries.extend written part)] := by
        rw [addFragment, Entries.alter_append h, Entries.alter, if_pos rfl, Option.getD_some]
      rw [List.map_cons, List.foldl_cons, hfirst, ih, List.foldl_cons]
  cases parts with
  | nil => exact (List.append_nil groups).symm
  | cons part parts =>
    have hfirst : addFragment groups (target, part) =
        groups ++ [(target, Entries.extend [] part)] := by
      rw [addFragment, Entries.alter_of_not_mem h, Option.getD_none]
    rw [List.map_cons, List.foldl_cons, hfirst, hadd]
    rfl

/-- Fragments that come in blocks, each at a target of its own, are merged block by block. -/
theorem merge_blocks {β : Type} {blocks : Entries β} (h : Entries.Distinct blocks)
    (parts : String × β → List Object) :
    merge (blocks.flatMap fun block => (parts block).map fun part => (block.1, part)) =
      blocks.filterMap fun block => group? block.1 (parts block) := by
  -- with the groups that are there already, among which no block has its target
  have hadd : ∀ groups : Entries Object,
      (∀ target ∈ Entries.keys blocks, target ∉ Entries.keys groups) →
        (blocks.flatMap fun block => (parts block).map fun part => (block.1, part)).foldl
          addFragment groups =
            groups ++ blocks.filterMap fun block => group? block.1 (parts block) := by
    induction blocks with
    | nil => exact fun groups _ => (List.append_nil groups).symm
    | cons block blocks ih =>
      obtain ⟨hblock, hrest⟩ := List.nodup_cons.1 h
      intro groups hnew
      rw [List.flatMap_cons, List.foldl_append,
        foldl_addFragment_group (hnew _ List.mem_cons_self), ih hrest, List.append_assoc]
      · congr 1
        cases hgroup : group? block.1 (parts block) with
        | none => exact (List.filterMap_cons_none (a := block) hgroup).symm
        | some group => exact (List.filterMap_cons_some (a := block) hgroup).symm
      · intro target htarget hmem
        rw [Entries.keys_append, List.mem_append] at hmem
        rcases hmem with hmem | hmem
        · exact hnew target (List.mem_cons_of_mem _ htarget) hmem
        · obtain ⟨operators, hgroup⟩ := Entries.mem_keys.1 hmem
          rw [Option.mem_toList, group?, Option.ite_none_left_eq_some, Option.some.injEq] at hgroup
          rw [← (Prod.mk.inj hgroup.2).1] at htarget
          exact hblock htarget
  rw [merge, hadd [] fun _ _ => List.not_mem_nil, List.nil_append]

/-- Fragments at different targets are listed as they are. -/
theorem merge_of_distinct {fragments : List (String × Object)}
    (h : Entries.Distinct fragments) (hown : ∀ fragment ∈ fragments, Entries.Distinct fragment.2) :
    merge fragments = fragments := by
  have hgroups : (fragments.filterMap fun fragment => group? fragment.1 [fragment.2]) =
      fragments := by
    refine (List.filterMap_congr fun fragment hmem => ?_).trans List.filterMap_some
    have hunited : united [fragment.2] = fragment.2 := Entries.extend_nil_left (hown fragment hmem)
    rw [group?, hunited]
    rfl
  calc merge fragments
      = merge (fragments.flatMap fun fragment => [fragment.2].map fun part => (fragment.1, part)) :=
        congrArg merge (List.flatMap_singleton' fragments).symm
    _ = fragments.filterMap fun fragment => group? fragment.1 [fragment.2] :=
        merge_blocks h fun fragment => [fragment.2]
    _ = fragments := hgroups

/-! ### Filters -/

/-- A filter has its targets as keys. -/
theorem keys_toFilter (groups : Entries Object) :
    Entries.keys (toFilter groups) = Entries.keys groups := by
  rw [Entries.keys, toFilter, List.map_map]
  rfl

/-- At a key of a filter stand the operators of this target, as an object. -/
theorem get?_toFilter (groups : Entries Object) (target : String) :
    Entries.get? (toFilter groups) target = (Entries.get? groups target).map .object := by
  induction groups with
  | nil => rfl
  | cons group groups ih =>
    obtain ⟨t, operators⟩ := group
    rw [toFilter, List.map_cons, ← toFilter, Entries.get?_cons, Entries.get?_cons, ih]
    split <;> rfl

variable [Schema σ]

/-- A compiled filter has each key once. -/
theorem distinct_compileRows (rows : List (Condition σ)) :
    Entries.Distinct (compileRows rows) := by
  rw [compileRows_eq, Entries.Distinct, keys_toFilter]
  exact distinct_merge _

/-- The keys of the filter are the targets at which rows write. -/
theorem mem_keys_compileRows {rows : List (Condition σ)} {target : String} :
    target ∈ Entries.keys (compileRows rows) ↔
      ∃ row ∈ rows, ∃ fragment, fragment? row = some (target, fragment) := by
  rw [compileRows_eq, keys_toFilter, mem_keys_merge, Entries.mem_keys]
  constructor
  · rintro ⟨fragment, hmem⟩
    obtain ⟨row, hrow, heq⟩ := List.mem_filterMap.1 hmem
    exact ⟨row, hrow, fragment, heq⟩
  · rintro ⟨row, hrow, fragment, heq⟩
    exact ⟨fragment, List.mem_filterMap.2 ⟨row, hrow, heq⟩⟩

/-- At a target stands all that the rows write there. -/
theorem get?_compileRows {rows : List (Condition σ)} {target : String}
    (h : target ∈ Entries.keys (compileRows rows)) :
    Entries.get? (compileRows rows) target =
      some (.object (united (fragmentsAt target (rows.filterMap fragment?)))) := by
  rw [compileRows_eq, keys_toFilter, mem_keys_merge] at h
  rw [compileRows_eq, get?_toFilter, get?_merge h]
  rfl

/-- What stands at a target are distinct operators, each of which a row writes there. -/
theorem exists_writers {rows : List (Condition σ)} {target : String} {value : Json}
    (h : (target, value) ∈ compileRows rows) :
    ∃ operators, value = .object operators ∧ Entries.Distinct operators ∧
      ∀ entry ∈ operators, ∃ row ∈ rows, ∃ part,
        fragment? row = some (target, part) ∧ entry ∈ part := by
  have hget := (distinct_compileRows rows).get?_of_mem h
  have hkey : target ∈ Entries.keys (compileRows rows) := Entries.mem_keys_of_mem h
  rw [get?_compileRows hkey] at hget
  refine ⟨_, (Option.some.inj hget).symm,
    Entries.distinct_foldl_extend Entries.distinct_nil _, fun entry hentry => ?_⟩
  rcases Entries.mem_foldl_extend hentry with hnone | ⟨part, hpart, hwritten⟩
  · exact absurd hnone List.not_mem_nil
  · obtain ⟨⟨key, _⟩, hat, rfl⟩ := List.mem_map.1 hpart
    obtain ⟨hfragment, htarget⟩ := List.mem_filter.1 hat
    obtain rfl : key = target := by simpa using htarget
    obtain ⟨row, hrow, hwrites⟩ := List.mem_filterMap.1 hfragment
    exact ⟨row, hrow, _, hwrites, hwritten⟩

/-- Without two rows at one target the filter lists what the rows write. -/
theorem compileRows_of_distinct {rows : List (Condition σ)}
    (h : Entries.Distinct (rows.filterMap fragment?))
    (hown : ∀ fragment ∈ rows.filterMap fragment?, Entries.Distinct fragment.2) :
    compileRows rows = toFilter (rows.filterMap fragment?) := by
  rw [compileRows_eq, merge_of_distinct h hown]

/-! ### Rows that write nothing -/

/-- A row from inside a relation writes nothing. -/
theorem fragment?_of_parent {row : Condition σ} (h : row.parent ≠ none) : fragment? row = none := by
  have hsome : row.parent.isSome = true := Option.isSome_iff_ne_none.2 h
  rw [fragment?, counted?, hsome, Bool.or_true, if_pos rfl, Option.bind_none]

/-- Only rows without a parent write something. -/
theorem filterMap_fragment?_topLevel (rows : List (Condition σ)) :
    (topLevel rows).filterMap fragment? = rows.filterMap fragment? := by
  induction rows with
  | nil => rfl
  | cons row rows ih =>
    by_cases h : row.parent = none
    · have htop : topLevel (row :: rows) = row :: topLevel rows :=
        List.filter_cons_of_pos (by rw [h]; rfl)
      rw [htop, List.filterMap_cons, List.filterMap_cons, ih]
    · have htop : topLevel (row :: rows) = topLevel rows :=
        List.filter_cons_of_neg (by rw [Option.isNone_iff_eq_none]; exact h)
      rw [htop, ih, List.filterMap_cons_none (fragment?_of_parent h)]

/-- Rows from inside relations do not matter. -/
theorem compileRows_topLevel (rows : List (Condition σ)) :
    compileRows (topLevel rows) = compileRows rows := by
  rw [compileRows_eq, compileRows_eq, filterMap_fragment?_topLevel]

/-- No rows have the empty filter. -/
@[simp] theorem compileRows_nil : compileRows ([] : List (Condition σ)) = [] := by
  rw [compileRows_eq]
  rfl

end QueryFilter.Compile

namespace QueryFilter

variable {σ : Type} [Schema σ]

/-- There is a filter as soon as there is a row. -/
theorem compile_of_ne_nil {rows : List (Condition σ)} (h : rows ≠ []) :
    compile rows = some (Compile.compileRows rows) := by
  rw [compile, List.isEmpty_eq_false_iff.2 h, if_neg (by decide)]

/-- Up to the difference between no filter and an empty one, `compile` is `compileRows`. -/
theorem getD_compile (rows : List (Condition σ)) :
    (compile rows).getD [] = Compile.compileRows rows := by
  cases rows with
  | nil => rw [Compile.compileRows_nil]; rfl
  | cons row rows => rw [compile_of_ne_nil (List.cons_ne_nil _ _), Option.getD_some]

end QueryFilter
