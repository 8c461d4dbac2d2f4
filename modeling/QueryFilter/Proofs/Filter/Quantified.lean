import QueryFilter.Proofs.Filter.Recompile

/-!
# Quantified filters

The operators of a relation to many items are quantifiers, each with the filter below it
(`quantifiedBy`).  They are restored in an order of their own, one by one, so that they say the same
after they were compiled again if and only if the filter below each quantifier does
(`same_quantifiedBy_iff`).

Whatever stands on a relation, the filters that are found inside are written again one by one: each
below its operator for many items (`operatorsAgain_toMany`), the filter itself for one item
(`operatorsAgain_single`).
-/

namespace QueryFilter

open Catalog Compile Restore

/-- The operators of a relation to many items: quantifiers, each with the filter below it. -/
def quantifiedBy (pairs : List (Operator × Object)) : Object :=
  pairs.map fun pair => (pair.1.word, .object pair.2)

/-- Filters below different quantifiers have each key once. -/
theorem distinct_quantifiedBy {pairs : List (Operator × Object)} (h : (pairs.map Prod.fst).Nodup) :
    Entries.Distinct (quantifiedBy pairs) := by
  have hkeys : Entries.keys (quantifiedBy pairs) = (pairs.map Prod.fst).map Operator.word := by
    rw [Entries.keys, quantifiedBy, List.map_map, List.map_map]
    rfl
  rw [Entries.Distinct, hkeys]
  exact h.map fun _ _ => Operator.word_injective

/-- Below its quantifier stands each filter. -/
theorem get?_quantifiedBy {pairs : List (Operator × Object)} (h : (pairs.map Prod.fst).Nodup)
    {pair : Operator × Object} (hpair : pair ∈ pairs) :
    Entries.get? (quantifiedBy pairs) pair.1.word = some (.object pair.2) :=
  (distinct_quantifiedBy h).get?_of_mem (List.mem_map.2 ⟨pair, hpair, rfl⟩)

/-- The keys are the words of the quantifiers. -/
theorem mem_keys_quantifiedBy {pairs : List (Operator × Object)} {key : String} :
    key ∈ Entries.keys (quantifiedBy pairs) ↔ ∃ pair ∈ pairs, pair.1.word = key := by
  rw [Entries.keys, quantifiedBy, List.map_map, List.mem_map]
  rfl

/-- Quantified filters that are written one by one stand in order. -/
theorem united_singles {pairs : List (Operator × Object)} (h : (pairs.map Prod.fst).Nodup) :
    united (pairs.map fun pair => single pair.1 (.object pair.2)) = quantifiedBy pairs := by
  have hsingles : pairs.map (fun pair => single pair.1 (.object pair.2)) =
      (quantifiedBy pairs).map fun entry => [entry] := by
    rw [quantifiedBy, List.map_map]
    rfl
  rw [united, hsingles, Entries.foldl_extend_singletons,
    Entries.extend_nil_left (distinct_quantifiedBy h)]

/-- No quantifier is read twice. -/
theorem nodup_quantified (operators : Object) : ((quantified operators).map Prod.fst).Nodup := by
  have hfirst : (quantified operators).map Prod.fst = quantifiers.filter fun operator =>
      (Entries.get? operators operator.word).isSome := by
    rw [quantified]
    induction quantifiers with
    | nil => rfl
    | cons operator operators' ih =>
      cases hget : Entries.get? operators operator.word with
      | none => simp [hget, ih]
      | some inner => simp [hget, ih]
  rw [hfirst]
  exact List.Nodup.filter _ (by decide)

/-- The filters below quantifiers are found again. -/
theorem mem_quantified {pairs : List (Operator × Object)} (h : (pairs.map Prod.fst).Nodup)
    (hquantifiers : ∀ pair ∈ pairs, pair.1 ∈ quantifiers) (pair : Operator × Object) :
    pair ∈ quantified (quantifiedBy pairs) ↔ pair ∈ pairs := by
  rw [quantified, List.mem_filterMap]
  constructor
  · rintro ⟨operator, -, heq⟩
    obtain ⟨json, hget, rfl⟩ := Option.map_eq_some_iff.1 heq
    obtain ⟨other, hother, hentry⟩ := List.mem_map.1 (Entries.mem_of_get? hget)
    obtain ⟨hword, rfl⟩ := Prod.mk.inj hentry
    obtain rfl := Operator.word_injective hword
    exact hother
  · intro hpair
    refine ⟨pair.1, hquantifiers pair hpair, ?_⟩
    rw [get?_quantifiedBy h hpair]
    rfl

/-- Quantified filters say the same if and only if they do below each quantifier. -/
theorem same_quantifiedBy_iff {pairs found : List (Operator × Object)} (f : Object → Object)
    (hpairs : (pairs.map Prod.fst).Nodup) (hfound : (found.map Prod.fst).Nodup)
    (hmem : ∀ pair, pair ∈ found ↔ pair ∈ pairs) :
    Json.Same (.object (quantifiedBy (found.map fun pair => (pair.1, f pair.2))))
        (.object (quantifiedBy pairs)) ↔
      ∀ pair ∈ pairs, Json.Same (.object (f pair.2)) (.object pair.2) := by
  have hnodup : ((found.map fun pair => (pair.1, f pair.2)).map Prod.fst).Nodup := by
    rw [List.map_map]
    exact hfound
  have hget : ∀ pair ∈ pairs, Entries.get?
      (quantifiedBy (found.map fun pair => (pair.1, f pair.2))) pair.1.word =
        some (.object (f pair.2)) := fun pair hpair =>
    get?_quantifiedBy hnodup (List.mem_map_of_mem ((hmem pair).2 hpair))
  rw [Json.same_object_iff]
  constructor
  · rintro ⟨-, hvalues⟩ pair hpair
    exact hvalues _ _ _ (hget pair hpair) (get?_quantifiedBy hpairs hpair)
  · intro h
    constructor
    · intro key
      rw [mem_keys_quantifiedBy, mem_keys_quantifiedBy]
      constructor
      · rintro ⟨_, hentry, hkey⟩
        obtain ⟨pair, hpair, rfl⟩ := List.mem_map.1 hentry
        exact ⟨pair, (hmem pair).1 hpair, hkey⟩
      · rintro ⟨pair, hpair, hkey⟩
        exact ⟨_, List.mem_map_of_mem ((hmem pair).2 hpair), hkey⟩
    · intro key x y hx hy
      obtain ⟨pair, hpair, rfl⟩ := mem_keys_quantifiedBy.1 (Entries.mem_keys_of_get? hy)
      rw [hget pair hpair] at hx
      rw [get?_quantifiedBy hpairs hpair] at hy
      rw [← Option.some.inj hx, ← Option.some.inj hy]
      exact h pair hpair

/-! ### Filters inside a relation -/

section Inside

variable {σ : Type} {field : Field σ} {relation : Relation σ} {operators : Object}

/-- No operator of a relation is read twice. -/
theorem nodup_innerFilters (field : Field σ) (operators : Object) :
    ((innerFilters field operators).map Prod.fst).Nodup := by
  rw [innerFilters_eq]
  split
  · exact nodup_quantified operators
  · split
    · exact List.nodup_singleton _
    · split
      · exact List.nodup_singleton _
      · exact List.nodup_nil

/-- Filters below quantifiers are read with these. -/
theorem operator_of_mem_quantified {pair : Operator × Object} (h : pair ∈ quantified operators) :
    pair.1 ∈ quantifiers := by
  obtain ⟨operator, hoperator, heq⟩ := List.mem_filterMap.1 h
  obtain ⟨inner, -, rfl⟩ := Option.map_eq_some_iff.1 heq
  exact hoperator

/-- Without quantifiers at most one filter is read, that of `is` or the whole object. -/
theorem innerFilters_of_quantified_eq_nil (h : quantified operators = []) (field : Field σ) :
    innerFilters field operators =
      match Entries.get? operators Operator.related.word with
      | some inner => [(.related, inner.entries)]
      | none => if field.kind? = some .toOne then [(.related, operators)] else [] := by
  rw [innerFilters_eq, h]
  rfl

/-- A filter inside a relation stands under its operator, or is the whole object of a relation to
one item. -/
theorem exists_of_mem_innerFilters {pair : Operator × Object}
    (h : pair ∈ innerFilters field operators) :
    (∃ inner, (pair.1.word, inner) ∈ operators ∧ pair.2 = inner.entries) ∨
      field.kind? = some .toOne ∧ pair.2 = operators := by
  by_cases hnone : quantified operators = []
  · rw [innerFilters_of_quantified_eq_nil hnone] at h
    split at h
    · rename_i inner hget
      rw [List.mem_singleton.1 h]
      exact .inl ⟨inner, Entries.mem_of_get? hget, rfl⟩
    · rw [List.mem_ite_nil_right] at h
      rw [List.mem_singleton.1 h.2]
      exact .inr ⟨h.1, rfl⟩
  · rw [innerFilters_quantified hnone] at h
    obtain ⟨operator, -, heq⟩ := List.mem_filterMap.1 h
    obtain ⟨inner, hget, rfl⟩ := Option.map_eq_some_iff.1 heq
    exact .inl ⟨inner, Entries.mem_of_get? hget, rfl⟩

/-- A filter inside a relation comes with an operator of relations. -/
theorem spec_of_mem_innerFilters {pair : Operator × Object}
    (h : pair ∈ innerFilters field operators) :
    ∃ spec ∈ FieldType.relation.specs, spec.operator = pair.1 := by
  have hspecs : ∀ operator ∈ .related :: quantifiers, ∃ spec ∈ FieldType.relation.specs,
      spec.operator = operator := by decide
  refine hspecs pair.1 ?_
  by_cases hnone : quantified operators = []
  · rw [innerFilters_of_quantified_eq_nil hnone] at h
    split at h
    · rw [List.mem_singleton.1 h]
      exact List.mem_cons_self
    · split at h
      · rw [List.mem_singleton.1 h]
        exact List.mem_cons_self
      · exact absurd h List.not_mem_nil
  · rw [innerFilters_quantified hnone] at h
    exact List.mem_cons_of_mem _ (operator_of_mem_quantified h)

/-- The filters below quantifiers, or below `is`, stay there when each is replaced by another. -/
theorem innerFilters_quantifiedBy (hkind : field.kind? = some .toMany) (operators : Object)
    (f : Object → Object) :
    innerFilters field
        (quantifiedBy ((innerFilters field operators).map fun pair => (pair.1, f pair.2))) =
      (innerFilters field operators).map fun pair => (pair.1, f pair.2) := by
  have hquantified : quantified
      (quantifiedBy ((quantified operators).map fun pair => (pair.1, f pair.2))) =
        (quantified operators).map fun pair => (pair.1, f pair.2) := by
    simp only [quantified, quantifiers, List.filterMap_cons, List.filterMap_nil]
    cases Entries.get? operators Operator.someRelated.word <;>
      cases Entries.get? operators Operator.everyRelated.word <;>
        cases Entries.get? operators Operator.noRelated.word <;>
          simp [quantifiedBy, Entries.get?_cons, Operator.word, Json.entries]
  by_cases hnil : quantified operators = []
  · rw [innerFilters_of_quantified_eq_nil hnil, hkind]
    cases Entries.get? operators Operator.related.word with
    | some inner => rfl
    | none =>
      change innerFilters field [] = []
      rw [innerFilters_eq, hkind]
      rfl
  · rw [innerFilters_quantified hnil]
    rw [innerFilters_quantified, hquantified]
    rw [hquantified]
    simpa using hnil

variable [Schema σ]

/-- What a relation is restored to writes its filters one by one, each compiled again. -/
theorem filterMap_part?_relation (htype : field.isRelation = true)
    (hrelation : field.relation = some relation) (operators : Object) :
    (headRows field none (.object operators)).filterMap part? =
      (innerFilters field operators).filterMap fun pair =>
        relationFragment? field pair.1 (recompiled relation.scope pair.2) := by
  rw [headRows_relation htype, List.filterMap_filterMap]
  refine List.filterMap_congr fun pair hpair => ?_
  obtain ⟨spec, hspec, hoperator⟩ := spec_of_mem_innerFilters hpair
  rw [innerRow?, ← hoperator, FieldType.label?_operator hspec, Option.map_some, Option.bind_some,
    part?_rowOf_filter htype hrelation hspec]

/-- On a relation to many items each filter is written below its operator. -/
theorem operatorsAgain_toMany (htype : field.isRelation = true)
    (hrelation : field.relation = some relation) (hkind : field.kind? = some .toMany)
    (operators : Object) :
    operatorsAgain field operators =
      quantifiedBy ((innerFilters field operators).map fun pair =>
        (pair.1, recompiled relation.scope pair.2)) := by
  have hparts : ((innerFilters field operators).filterMap fun pair =>
      relationFragment? field pair.1 (recompiled relation.scope pair.2)) =
        ((innerFilters field operators).map fun pair =>
          (pair.1, recompiled relation.scope pair.2)).map
            fun pair => single pair.1 (.object pair.2) := by
    rw [List.map_map, ← List.filterMap_eq_map]
    exact List.filterMap_congr fun pair _ => relationFragment?_toMany hkind _ _
  rw [operatorsAgain, filterMap_part?_relation htype hrelation, hparts, united_singles]
  rw [List.map_map]
  exact nodup_innerFilters field operators

/-- A relation to one item for which a single filter is read has what the filter is compiled to. -/
theorem operatorsAgain_single (htype : field.isRelation = true)
    (hrelation : field.relation = some relation) (hkind : field.kind? = some .toOne)
    {inner : Object} (h : innerFilters field operators = [(.related, inner)]) :
    operatorsAgain field operators = recompiled relation.scope inner := by
  rw [operatorsAgain, filterMap_part?_relation htype hrelation, h, List.filterMap_cons,
    List.filterMap_nil]
  cases hempty : recompiled relation.scope inner with
  | nil =>
    rw [relationFragment?, hkind]
    rfl
  | cons entry entries =>
    have hdistinct : Entries.Distinct (recompiled relation.scope inner) := distinct_compileRows _
    rw [hempty] at hdistinct
    rw [relationFragment?_toOne hkind _ (List.cons_ne_nil _ _)]
    exact Entries.extend_nil_left hdistinct

/-- Quantified filters are restored and compiled again one by one. -/
theorem operatorsAgain_quantified (htype : field.isRelation = true)
    (hrelation : field.relation = some relation) (hkind : field.kind? = some .toMany)
    (h : quantified operators ≠ []) :
    operatorsAgain field operators =
      quantifiedBy ((quantified operators).map fun pair =>
        (pair.1, recompiled relation.scope pair.2)) := by
  rw [operatorsAgain_toMany htype hrelation hkind, innerFilters_quantified h]

end Inside

end QueryFilter
