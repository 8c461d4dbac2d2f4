import QueryFilter.Proofs.Filter.Quantified

/-!
# Operators of restored relations

A restored row on a relation has the operator under which its filter was found, whatever the kind of
the relation is, and what it writes has the shape of the kind, whatever the operator is.  So a row
has an operator that its field offers if and only if the operators that it was read from suit the
kind (`RelationKind.Suits`).  It is the same condition under which restoring and compiling keeps
what the operators say about the number of items (`Relation.Keeps`).

All this holds in every schema, also if its names are not unique (`restored_offered_iff`).
-/

namespace QueryFilter

open Catalog Compile Restore

variable {σ : Type}

/-! ### Operators that suit a relation -/

/-- A relation to one item has no quantifiers, and a relation to many items has `is` at most beside
quantifiers. -/
def RelationKind.Suits (kind : RelationKind) (operators : Object) : Prop :=
  match kind with
  | .toOne => ∀ operator ∈ quantifiers, operator.word ∉ Entries.keys operators
  | .toMany => Operator.related.word ∈ Entries.keys operators →
      ∃ operator ∈ quantifiers, operator.word ∈ Entries.keys operators

/-- A field offers an operator under a label. -/
def Field.Offers (field : Field σ) (label : String) : Prop :=
  ∃ spec ∈ field.specs, spec.label = label

/-- What is read from operators is written again as it was meant: for one item a single filter is
read, and nothing stands around it afterwards; for many items only quantified filters are read, and
each stands below its quantifier afterwards. -/
def Relation.Keeps [Schema σ] (relation : Relation σ) (field : Field σ) (operators : Object) :
    Prop :=
  match relation.kind with
  | .toOne => ∃ inner, innerFilters field operators = [(.related, inner)] ∧
      operatorsAgain field operators = recompiled relation.scope inner
  | .toMany => innerFilters field operators = quantified operators ∧
      operatorsAgain field operators = quantifiedBy ((quantified operators).map fun pair =>
        (pair.1, recompiled relation.scope pair.2))

/-- No filter stands below a quantifier exactly if no quantifier is a key. -/
theorem quantified_eq_nil {operators : Object} : quantified operators = [] ↔
    ∀ operator ∈ quantifiers, operator.word ∉ Entries.keys operators := by
  rw [quantified, List.filterMap_eq_nil_iff]
  refine forall₂_congr fun operator _ => ?_
  rw [Option.map_eq_none_iff, Entries.get?_eq_none]

/-- A filter without quantifier is read if and only if there are no quantifiers. -/
theorem related_iff_of_mem_innerFilters {field : Field σ} {operators : Object}
    {pair : Operator × Object} (h : pair ∈ innerFilters field operators) :
    pair.1 = .related ↔ quantified operators = [] := by
  constructor
  · intro hrelated
    refine Decidable.byContradiction fun hne => ?_
    rw [innerFilters_quantified hne] at h
    have hquantifier := operator_of_mem_quantified h
    rw [hrelated] at hquantifier
    exact absurd hquantifier (by decide)
  · intro hnone
    rw [innerFilters_of_quantified_eq_nil hnone] at h
    split at h
    · rw [List.mem_singleton.1 h]
    · split at h
      · rw [List.mem_singleton.1 h]
      · exact absurd h List.not_mem_nil

/-- Operators from which a filter is read suit the relation if and only if the filter has a
quantifier just in case that there are many items. -/
theorem suits_iff {field : Field σ} {relation : Relation σ}
    (hrelation : field.relation = some relation) {operators : Object} {pair : Operator × Object}
    (h : pair ∈ innerFilters field operators) :
    relation.kind.Suits operators ↔ (pair.1 = .related ↔ relation.kind = .toOne) := by
  have hrelated := related_iff_of_mem_innerFilters h
  have hkind := kind?_eq_some hrelation
  cases hk : relation.kind with
  | toOne =>
    rw [RelationKind.Suits, ← quantified_eq_nil, ← hrelated]
    simp
  | toMany =>
    have hquantified : (∃ operator ∈ quantifiers, operator.word ∈ Entries.keys operators) ↔
        ¬ quantified operators = [] := by
      rw [quantified_eq_nil]
      push Not
      rfl
    rw [RelationKind.Suits, hquantified, hrelated]
    constructor
    · intro hsuits
      refine iff_of_false (fun hnone => ?_) (by simp)
      -- what is read without a quantifier at many items is what stands under `is`
      rw [innerFilters_of_quantified_eq_nil hnone] at h
      cases hget : Entries.get? operators Operator.related.word with
      | some inner => exact hsuits (Entries.mem_keys_of_get? hget) hnone
      | none =>
        rw [hget, hkind, hk] at h
        exact absurd h List.not_mem_nil
    · rintro hiff - hnone
      exact absurd (hiff.1 hnone) (by simp)

/-- A field on a relation offers those operators that its kind is for. -/
theorem offers_iff {field : Field σ} {relation : Relation σ} (htype : field.isRelation = true)
    (hrelation : field.relation = some relation) {operator : Operator} {label : String}
    (hlabel : FieldType.relation.label? operator = some label) :
    field.Offers label ↔ (operator = .related ↔ relation.kind = .toOne) := by
  obtain ⟨spec, hfind, rfl⟩ := Option.map_eq_some_iff.1 hlabel
  have hspec := List.mem_of_find?_eq_some hfind
  have hoperator : spec.operator = operator := by simpa using List.find?_some hfind
  have hsame : ∀ other ∈ FieldType.relation.specs, other.label = spec.label → other = spec :=
    fun other hother heq => List.inj_on_of_nodup_map
      (FieldType.specs_labels_nodup .relation) hother hspec heq
  have hoffers : field.Offers spec.label ↔ spec ∈ field.specs := by
    constructor
    · rintro ⟨other, hother, heq⟩
      have hmem := Field.mem_specs_of_mem hother
      rw [type_eq_relation htype] at hmem
      rw [← hsame other hmem heq]
      exact hother
    · exact fun hmem => ⟨spec, hmem, rfl⟩
  rw [hoffers, Field.specs, kind?_eq_some hrelation, type_eq_relation htype, ← hoperator]
  cases relation.kind with
  | toOne => simp [List.mem_filter, hspec]
  | toMany => simp [List.mem_filter, hspec]

/-! ### What is written again -/

/-- Operators that suit a relation are exactly those that are kept. -/
theorem keeps_iff_suits [Schema σ] {field : Field σ} {relation : Relation σ}
    (htype : field.isRelation = true) (hrelation : field.relation = some relation)
    {operators : Object} {pair : Operator × Object} (h : pair ∈ innerFilters field operators) :
    relation.Keeps field operators ↔ relation.kind.Suits operators := by
  have hrelated := related_iff_of_mem_innerFilters h
  have hkind := kind?_eq_some hrelation
  rw [suits_iff hrelation h, Relation.Keeps]
  cases hk : relation.kind with
  | toOne =>
    rw [hk] at hkind
    simp only [iff_true]
    constructor
    · rintro ⟨inner, hinner, -⟩
      rw [hinner] at h
      rw [List.mem_singleton.1 h]
    · intro hop
      -- without quantifiers there is one filter inside, under `is` or as a whole
      have hone := innerFilters_of_quantified_eq_nil (hrelated.1 hop) field
      rw [hkind, if_pos rfl] at hone
      have hinner : ∃ inner, innerFilters field operators = [(.related, inner)] := by
        rw [hone]
        split
        · exact ⟨_, rfl⟩
        · exact ⟨_, rfl⟩
      obtain ⟨inner, hinner⟩ := hinner
      exact ⟨inner, hinner, operatorsAgain_single htype hrelation hkind hinner⟩
  | toMany =>
    rw [hk] at hkind
    simp only [reduceCtorEq, iff_false]
    rw [hrelated]
    constructor
    · rintro ⟨hquantified, -⟩ hnone
      rw [hquantified, hnone] at h
      exact absurd h List.not_mem_nil
    · intro hne
      exact ⟨innerFilters_quantified hne field,
        operatorsAgain_quantified htype hrelation hkind hne⟩

/-! ### Where restored rows are read -/

namespace Restore

/-- An object stands below a key of a filter, or below a key of an object that does. -/
inductive Within : Object → Object → Prop
  | here {filter operators : Object} {key : String} (h : (key, .object operators) ∈ filter) :
      Within filter operators
  | inside {filter inner operators : Object} {key : String} (h : (key, .object inner) ∈ filter)
      (hinner : Within inner operators) : Within filter operators

/-- A row is read from operators: these stand within the filter, and the rows without a parent that
count are at one place those of the operators. -/
structure ReadFrom [Schema σ] (fields : List (Field σ)) (filter : Object) (field : Field σ)
    (row : Condition σ) (operators : Object) : Prop where
  within : Within filter operators
  mem : row ∈ headRows field row.parent (.object operators)
  top : row.parent = none → ∃ before after, topLevel (restore fields filter) =
    before ++ headRows field none (.object operators) ++ after

/-- What stands within a filter inside a relation stands within the operators of the relation. -/
theorem Within.of_innerFilters {field : Field σ} {operators : Object} {pair : Operator × Object}
    (hpair : pair ∈ innerFilters field operators) {other : Object} (h : Within pair.2 other) :
    Within operators other := by
  have hentry : ∀ {word : String} {inner : Json}, Entries.get? operators word = some inner →
      Within inner.entries other → Within operators other := by
    intro word inner hget hinner
    cases inner with
    | object entries => exact .inside (Entries.mem_of_get? hget) hinner
    | _ => cases hinner <;> exact absurd ‹_› List.not_mem_nil
  by_cases hnone : quantified operators = []
  · rw [innerFilters_of_quantified_eq_nil hnone] at hpair
    split at hpair
    · rename_i inner hget
      rw [List.mem_singleton.1 hpair] at h
      exact hentry hget h
    · split at hpair
      · rw [List.mem_singleton.1 hpair] at h
        exact h
      · exact absurd hpair List.not_mem_nil
  · rw [innerFilters_quantified hnone] at hpair
    obtain ⟨operator, -, heq⟩ := List.mem_filterMap.1 hpair
    obtain ⟨inner, hget, rfl⟩ := Option.map_eq_some_iff.1 heq
    exact hentry hget h

/-- The rows of a filter inside a relation are its own row and what is restored from it. -/
theorem mem_innerRows {inner : Inner σ} {field : Field σ} {fields : List (Field σ)}
    {parent : Option String} {path : String} {pair : Operator × Object} {resolver : Resolver σ}
    {row : Condition σ} (h : row ∈ (innerRows inner field fields parent path pair resolver).1) :
    innerRow? field parent pair = some row ∨
      ∃ resolver', row ∈ (inner fields (some path) pair.2 resolver').1 := by
  unfold innerRows at h
  unfold innerRow?
  cases hlabel : FieldType.relation.label? pair.1 with
  | none =>
    rw [hlabel] at h
    exact absurd h List.not_mem_nil
  | some label =>
    rw [hlabel] at h
    rcases List.mem_cons.1 h with rfl | h
    · exact .inl rfl
    · exact .inr ⟨resolver, h⟩

/-- The rows of a key are those of its field, and what is restored from the filters inside. -/
theorem mem_entryRows [Schema σ] {inner : Inner σ} {scope : List (Field σ)}
    {parent : Option String} {entry : String × Json} {resolver : Resolver σ} {row : Condition σ}
    (h : row ∈ (entryRows inner scope parent entry resolver).1) :
    ∃ field, row ∈ headRows field parent entry.2 ∨
      ∃ operators, entry.2 = .object operators ∧ ∃ pair ∈ innerFilters field operators,
        ∃ fields path resolver', row ∈ (inner fields (some path) pair.2 resolver').1 := by
  unfold entryRows entryRowsBy at h
  rw [Lookup.run_bind] at h
  generalize Resolver.find scope entry.1 (pathOf parent entry.1) resolver = found at h
  obtain ⟨found, resolver'⟩ := found
  cases found with
  | none => exact absurd h List.not_mem_nil
  | some field =>
    refine ⟨field, ?_⟩
    unfold headRows
    change row ∈ (fieldRows inner field parent _ entry.2 resolver').1 at h
    unfold fieldRows at h
    by_cases hrelation : field.isRelation = true
    · rw [if_pos hrelation] at h ⊢
      cases hvalue : entry.2 with
      | object operators =>
        rw [hvalue] at h
        obtain ⟨pair, hpair, resolver'', hrow⟩ := Lookup.mem_flatMap h
        rcases mem_innerRows hrow with hhead | ⟨_, hinner⟩
        · exact .inl (List.mem_filterMap.2 ⟨pair, hpair, hhead⟩)
        · exact .inr ⟨operators, rfl, pair, hpair, _, _, _, hinner⟩
      | _ =>
        rw [hvalue] at h
        exact absurd h List.not_mem_nil
    · rw [if_neg hrelation] at h ⊢
      exact .inl h

/-- Rows inside a relation have a parent. -/
theorem parent_of_mem_levelRows [Schema σ] {levels : Nat} {scope : List (Field σ)} {path : String}
    {filter : Object} {resolver : Resolver σ} {row : Condition σ}
    (h : row ∈ (levelRows levels scope (some path) filter resolver).1) : row.parent ≠ none := by
  induction levels generalizing scope path filter resolver with
  | zero => exact absurd h List.not_mem_nil
  | succ levels ih =>
    obtain ⟨entry, -, _, hrow⟩ := Lookup.mem_flatMap h
    obtain ⟨field, hhead | ⟨_, _, _, _, _, _, _, hinner⟩⟩ := mem_entryRows hrow
    · rw [parent_of_mem_headRows hhead]
      exact Option.some_ne_none path
    · exact ih hinner

/-- A restored row on a relation is read from operators within the filter. -/
theorem exists_within_of_mem_levelRows [Schema σ] {levels : Nat} {scope : List (Field σ)}
    {parent : Option String} {filter : Object} {resolver : Resolver σ} {row : Condition σ}
    (h : row ∈ (levelRows levels scope parent filter resolver).1) {field : Field σ}
    (hfield : row.field? = some field) (htype : field.isRelation = true) :
    ∃ operators, Within filter operators ∧ row ∈ headRows field row.parent (.object operators) := by
  induction levels generalizing scope parent filter resolver with
  | zero => exact absurd h List.not_mem_nil
  | succ levels ih =>
    obtain ⟨⟨key, value⟩, hentry, _, hrow⟩ := Lookup.mem_flatMap h
    obtain ⟨own, hhead | ⟨operators, hvalue, pair, hpair, _, _, _, hinner⟩⟩ := mem_entryRows hrow
    · have hown := Condition.field?_eq_some.2 (subject_of_mem_headRows hhead)
      rw [hfield] at hown
      obtain rfl := Option.some.inj hown
      rw [← parent_of_mem_headRows hhead] at hhead
      cases value with
      | object operators => exact ⟨operators, .here hentry, hhead⟩
      | _ =>
        unfold headRows at hhead
        rw [if_pos htype] at hhead
        exact absurd hhead List.not_mem_nil
    · obtain ⟨other, hwithin, hmem⟩ := ih hinner
      obtain rfl : value = .object operators := hvalue
      exact ⟨other, .inside hentry (hwithin.of_innerFilters hpair), hmem⟩

/-! ### Rows without a parent -/

/-- What is in the joined list is in one of the lists, which has its place there. -/
theorem exists_split_of_mem_flatMap {α β : Type} {f : α → Lookup σ (List β)} {xs : List α}
    {resolver : Resolver σ} {y : β} (h : y ∈ (Lookup.flatMap f xs resolver).1) :
    ∃ x ∈ xs, ∃ resolver' before after, y ∈ (f x resolver').1 ∧
      (Lookup.flatMap f xs resolver).1 = before ++ (f x resolver').1 ++ after := by
  induction xs generalizing resolver with
  | nil => exact absurd h List.not_mem_nil
  | cons x xs ih =>
    simp only [Lookup.flatMap, Lookup.run_bind, Lookup.run_pure] at h ⊢
    rcases List.mem_append.1 h with h | h
    · exact ⟨x, List.mem_cons_self, resolver, [], _, h, rfl⟩
    · obtain ⟨other, hother, resolver', before, after, hmem, heq⟩ := ih h
      refine ⟨other, List.mem_cons_of_mem _ hother, resolver', (f x resolver).1 ++ before, after,
        hmem, ?_⟩
      rw [heq]
      simp only [List.append_assoc]

/-- The rows without a parent of filters inside a relation are their own rows. -/
theorem topLevel_flatMap_innerRows {inner : Inner σ} {fields : List (Field σ)} {path : String}
    (hinner : ∀ filter resolver, topLevel (inner fields (some path) filter resolver).1 = [])
    (field : Field σ) (pairs : List (Operator × Object)) (resolver : Resolver σ) :
    topLevel (Lookup.flatMap (innerRows inner field fields none path) pairs resolver).1 =
      pairs.filterMap (innerRow? field none) := by
  induction pairs generalizing resolver with
  | nil => rfl
  | cons pair pairs ih =>
    simp only [Lookup.flatMap, Lookup.run_bind, Lookup.run_pure]
    rw [topLevel_append, ih, List.filterMap_cons, innerRows, innerRow?]
    cases FieldType.relation.label? pair.1 with
    | none => rfl
    | some label =>
      have hhead : topLevel (rowOf field none label (.filter pair.2) ::
          (inner fields (some path) pair.2 resolver).1) =
          rowOf field none label (.filter pair.2) ::
            topLevel (inner fields (some path) pair.2 resolver).1 := rfl
      simp only [Lookup.run_bind, Lookup.run_pure, Option.map_some]
      rw [hhead, hinner]
      rfl

/-- The rows without a parent of the value of a field are the rows of the field. -/
theorem topLevel_fieldRows [Schema σ] {levels : Nat} (field : Field σ) (path : String)
    (value : Json) (resolver : Resolver σ) :
    topLevel (fieldRows (levelRows levels) field none path value resolver).1 =
      headRows field none value := by
  have hhead : topLevel (headRows field none value) = headRows field none value :=
    topLevel_of_forall fun _ => parent_of_mem_headRows
  unfold fieldRows
  by_cases hrelation : field.isRelation = true
  · unfold headRows
    rw [if_pos hrelation, if_pos hrelation]
    cases value with
    | object operators =>
      exact topLevel_flatMap_innerRows
        (fun filter resolver => topLevel_eq_nil fun _ => parent_of_mem_levelRows) field _ _
    | _ => rfl
  · unfold headRows at hhead ⊢
    rw [if_neg hrelation] at hhead ⊢
    rw [if_neg hrelation]
    exact hhead

/-- The rows without a parent of a key are the rows of a field. -/
theorem topLevel_entryRows [Schema σ] {levels : Nat} {scope : List (Field σ)}
    {entry : String × Json} {resolver : Resolver σ} {row : Condition σ}
    (h : row ∈ topLevel (entryRows (levelRows levels) scope none entry resolver).1) :
    ∃ field, row ∈ headRows field none entry.2 ∧
      topLevel (entryRows (levelRows levels) scope none entry resolver).1 =
        headRows field none entry.2 := by
  unfold entryRows entryRowsBy at h ⊢
  rw [Lookup.run_bind] at h ⊢
  generalize Resolver.find scope entry.1 (pathOf none entry.1) resolver = found at h ⊢
  obtain ⟨found, resolver'⟩ := found
  cases found with
  | none => exact absurd h List.not_mem_nil
  | some field =>
    have htop := @topLevel_fieldRows σ _ levels field (pathOf none entry.1) entry.2 resolver'
    exact ⟨field, htop ▸ h, htop⟩

/-- A restored row on a relation is read from operators. -/
theorem exists_readFrom [Schema σ] {fields : List (Field σ)} {filter : Object} {row : Condition σ}
    (hrow : row ∈ restore fields filter) {field : Field σ} (hfield : row.field? = some field)
    (htype : field.isRelation = true) :
    ∃ operators, ReadFrom fields filter field row operators := by
  by_cases hparent : row.parent = none
  · obtain ⟨⟨key, value⟩, hentry, resolver, before, after, hmem, heq⟩ :=
      exists_split_of_mem_flatMap hrow
    have htop : row ∈ topLevel (entryRows (levelRows (relationDepth - 1)) fields none (key, value)
        resolver).1 := List.mem_filter.2 ⟨hmem, by rw [hparent]; rfl⟩
    obtain ⟨own, hhead, hrows⟩ := topLevel_entryRows htop
    have hown := Condition.field?_eq_some.2 (subject_of_mem_headRows hhead)
    rw [hfield] at hown
    obtain rfl := Option.some.inj hown
    cases value with
    | object operators =>
      refine ⟨operators, .here hentry, hparent ▸ hhead, fun _ =>
        ⟨topLevel before, topLevel after, ?_⟩⟩
      have hall : restore fields filter = _ := heq
      rw [hall, topLevel_append, topLevel_append]
      exact congrArg (fun rows => topLevel before ++ rows ++ topLevel after) hrows
    | _ =>
      unfold headRows at hhead
      rw [if_pos htype] at hhead
      exact absurd hhead List.not_mem_nil
  · obtain ⟨operators, hwithin, hmem⟩ := exists_within_of_mem_levelRows hrow hfield htype
    exact ⟨operators, hwithin, hmem, fun h => absurd h hparent⟩

end Restore

/-! ### Exactness -/

/-- Operators of relations: in every schema a restored row on a relation is read from operators
within the filter, and has an operator that its field offers if and only if these suit the kind of
the relation, which is also when compiling the rows that are read from them keeps what they say. -/
theorem restored_offered_iff [Schema σ] {fields : List (Field σ)} {filter : Object}
    {row : Condition σ} (hrow : row ∈ restore fields filter) {field : Field σ}
    (hfield : row.field? = some field) (htype : field.isRelation = true) {relation : Relation σ}
    (hrelation : field.relation = some relation) :
    (∃ operators, ReadFrom fields filter field row operators) ∧
    ∀ operators, row ∈ headRows field row.parent (.object operators) →
      (field.Offers row.operator ↔ relation.kind.Suits operators) ∧
      (relation.Keeps field operators ↔ relation.kind.Suits operators) := by
  refine ⟨exists_readFrom hrow hfield htype, fun operators hmem => ?_⟩
  rw [headRows_relation htype] at hmem
  obtain ⟨pair, hpair, hinner⟩ := List.mem_filterMap.1 hmem
  obtain ⟨label, hlabel, hlabelled⟩ := Option.map_eq_some_iff.1 hinner
  have hoperator : row.operator = label := by rw [← hlabelled]; rfl
  rw [hoperator, offers_iff htype hrelation hlabel, suits_iff hrelation hpair]
  refine ⟨Iff.rfl, ?_⟩
  rw [keeps_iff_suits htype hrelation hpair, suits_iff hrelation hpair]

/-! ### An example -/

/-- A name that contains `acme`, as it stands in a query string. -/
def namedAcme : Object :=
  [("name", .object [("contains", .string "acme")])]

/-- A name that contains `acme`, as it is compiled. -/
def namedAcmeAgain : Object :=
  [("name", .object [("contains", .string "acme"), ("mode", .string "insensitive")])]

/-- The whole object is read as the filter of companies that the row keeps. -/
theorem restore_namedCompany : restore (fieldsOf (.root .staff)) [("company", .object namedAcme)] =
    [rowOf companyField none "possui" (.filter namedAcme),
      rowOf (.scalar .text "company__name" "Nome") (some "company") "contém" (.text "acme")] := rfl

/-- A quantifier on a relation to one item is read all the same. -/
theorem restore_notNamedCompany :
    restore (fieldsOf (.root .staff)) [("company", .object [("none", .object namedAcme)])] =
      [rowOf companyField none "nenhum" (.filter namedAcme),
        rowOf (.scalar .text "company__name" "Nome") (some "company") "contém" (.text "acme")] :=
  rfl

/-- Staff whose company is named so suit the relation to one company, so that the restored row has
an operator that is offered, and the filter inside is what is written again. -/
theorem namedCompany_offered :
    rowOf companyField none "possui" (.filter namedAcme) ∈
        restore (fieldsOf (.root .staff)) [("company", .object namedAcme)] ∧
      RelationKind.toOne.Suits namedAcme ∧ companyField.Offers "possui" ∧
      (⟨.toOne, ⟨.companies, "company__"⟩⟩ : Relation Scope).Keeps companyField namedAcme := by
  have hrow : rowOf companyField none "possui" (.filter namedAcme) ∈
      restore (fieldsOf (.root .staff)) [("company", .object namedAcme)] := by
    rw [restore_namedCompany]
    exact List.mem_cons_self
  have hsuits : RelationKind.toOne.Suits namedAcme := by
    show ∀ operator ∈ quantifiers, operator.word ∉ Entries.keys namedAcme
    decide
  obtain ⟨-, hread⟩ := restored_offered_iff hrow rfl rfl
    (show companyField.relation = some ⟨.toOne, ⟨.companies, "company__"⟩⟩ from rfl)
  obtain ⟨hoffers, hkeeps⟩ := hread namedAcme List.mem_cons_self
  exact ⟨hrow, hsuits, hoffers.2 hsuits, hkeeps.2 hsuits⟩

/-- Whatever its operator is, the row on the company writes the filter inside it. -/
theorem compile_company {spec : OperatorSpec} (hspec : spec ∈ FieldType.relation.specs) :
    compile [rowOf companyField none spec.label (.filter namedAcme),
      rowOf (.scalar .text "company__name" "Nome") (some "company") "contém" (.text "acme")] =
        some [("company", .object namedAcmeAgain)] := by
  have hinner : restore (Schema.fields (⟨.companies, "company__"⟩ : Scope)) namedAcme =
      [rowOf (.scalar .text "company__name" "Nome") none "contém" (.text "acme")] := rfl
  have hagain : recompiled (⟨.companies, "company__"⟩ : Scope) namedAcme = namedAcmeAgain := by
    rw [recompiled, hinner, compileRows_eq]
    unfold fragment? fragmentWith?
    rfl
  have hwrites : fragment? (rowOf companyField none spec.label (.filter namedAcme)) =
      some ("company", namedAcmeAgain) := by
    rw [fragment?_rowOf_filter rfl rfl hspec, hagain]
    rfl
  rw [compile_of_ne_nil (List.cons_ne_nil _ _), compileRows_eq, List.filterMap_cons_some hwrites,
    List.filterMap_cons_none (fragment?_of_parent (Option.some_ne_none "company"))]
  rfl

/-- Staff whose company is not named so are restored with an operator that the company does not
offer, and compiled to the filter of staff whose company is named so. -/
theorem notNamedCompany_compile :
    rowOf companyField none "nenhum" (.filter namedAcme) ∈
        restore (fieldsOf (.root .staff)) [("company", .object [("none", .object namedAcme)])] ∧
      ¬ companyField.Offers "nenhum" ∧
      compile (restore (fieldsOf (.root .staff))
        [("company", .object [("none", .object namedAcme)])]) =
          compile (restore (fieldsOf (.root .staff)) [("company", .object namedAcme)]) ∧
      compile (restore (fieldsOf (.root .staff)) [("company", .object namedAcme)]) =
        some [("company", .object namedAcmeAgain)] := by
  have hspecs : (⟨"nenhum", .noRelated, "∄"⟩ : OperatorSpec) ∈ FieldType.relation.specs ∧
      (⟨"possui", .related, "→"⟩ : OperatorSpec) ∈ FieldType.relation.specs := by decide
  have hnone := compile_company hspecs.1
  have hsome := compile_company hspecs.2
  rw [restore_notNamedCompany, restore_namedCompany]
  refine ⟨List.mem_cons_self, ?_, hnone.trans hsome.symm, hsome⟩
  have hlabels : ∀ spec ∈ companyField.specs, spec.label ≠ "nenhum" := by decide
  rintro ⟨spec, hspec, hlabel⟩
  exact hlabels spec hspec hlabel

end QueryFilter
