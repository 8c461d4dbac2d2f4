import QueryFilter.Field.Source
import QueryFilter.Proofs.Filter.Calls
import QueryFilter.Proofs.Filter.Offered

/-!
# Nesting of restored filters

Compiling restored rows and restoring what comes out reads relations inside one another no more
often than before, as long as the rows stand on fields of the scope in which they are read
(`OnOwnFields`).  Then each key that is written is found in its own scope
(`topLevel_restore_own`), and the filter of a relation is read again from what rows on this relation
wrote (`exists_rewrites_of_mem`), so that the nesting is followed from one level to the next
(`nestedWithin_again`).

A row on a field that was found by its name elsewhere in the schema writes at the target of that
field all the same.  Where the scope has a relation with this target, the nesting grows
(`hoistedFilter_nested_again`).
-/

namespace QueryFilter

open Compile Restore

variable {σ : Type} [Schema σ]

/-! ### Keys of the scope -/

namespace Restore

/-- A key of the scope is found without a look at the rest of the schema. -/
theorem find_of_own {scope : List (Field σ)} {key : String} {field : Field σ}
    (h : (scope.find? fun field => field.target == key) = some field) (path : String)
    (resolver : Resolver σ) : Resolver.find scope key path resolver = (some field, resolver) := by
  unfold Resolver.find Resolver.findBy findField
  simp only [h]
  rfl

/-- The rows without a parent of a key that the scope has. -/
def ownRows (scope : List (Field σ)) (entry : String × Json) : List (Condition σ) :=
  ((scope.find? fun field => field.target == entry.1).map fun field =>
    headRows field none entry.2).getD []

/-- A scope has all keys of a filter. -/
def HasKeys (scope : List (Field σ)) (filter : Object) : Prop :=
  ∀ key ∈ Entries.keys filter, ∃ field, (scope.find? fun field => field.target == key) = some field

/-- The rows without a parent that a key of the scope has come from its own field. -/
theorem topLevel_entryRows_own {scope : List (Field σ)} {entry : String × Json} {field : Field σ}
    (h : (scope.find? fun field => field.target == entry.1) = some field) (levels : Nat)
    (resolver : Resolver σ) :
    topLevel (entryRows (levelRows levels) scope none entry resolver).1 = ownRows scope entry := by
  unfold entryRows entryRowsBy
  rw [Lookup.run_bind, find_of_own h, ownRows, h]
  exact topLevel_fieldRows field _ _ _

/-- Where the scope has all keys of a filter, the rows without a parent come from its own fields. -/
theorem topLevel_restore_own {scope : List (Field σ)} {filter : Object}
    (h : HasKeys scope filter) :
    topLevel (restore scope filter) = filter.flatMap (ownRows scope) := by
  have hall : ∀ resolver, topLevel
      (Lookup.flatMap (entryRows (levelRows (relationDepth - 1)) scope none) filter resolver).1 =
        filter.flatMap (ownRows scope) := by
    induction filter with
    | nil => exact fun _ => rfl
    | cons entry filter ih =>
      intro resolver
      obtain ⟨field, hfind⟩ := h entry.1 List.mem_cons_self
      have hrest := ih fun key hkey => h key (List.mem_cons_of_mem _ hkey)
      rw [List.flatMap_cons, ← topLevel_entryRows_own hfind (relationDepth - 1) resolver]
      simp only [Lookup.flatMap, Lookup.run_bind, Lookup.run_pure, topLevel_append, hrest]
  exact hall (Resolver.new scope)

/-- A restored row without a parent is one of the rows of its field. -/
theorem exists_headRows_of_mem_restore {scope : List (Field σ)} {filter : Object}
    {row : Condition σ} (hrow : row ∈ restore scope filter) (hparent : row.parent = none) :
    ∃ field value, row ∈ headRows field none value := by
  obtain ⟨entry, -, resolver, hmem⟩ := Lookup.mem_flatMap hrow
  have htop : row ∈
      topLevel (entryRows (levelRows (relationDepth - 1)) scope none entry resolver).1 :=
    List.mem_filter.2 ⟨hmem, Option.isNone_iff_eq_none.2 hparent⟩
  obtain ⟨field, hhead, -⟩ := topLevel_entryRows htop
  exact ⟨field, entry.2, hhead⟩

end Restore

/-! ### Rows on their own fields -/

/-- Rows stand on fields of the scope that they are read in, at every level of relations: the row of
a field is found again at its target.  In a relation to one item no target is the word of an
operator of relations, which would be taken for this operator. -/
inductive OnOwnFields : List (Field σ) → List (Condition σ) → Prop
  | rows {scope : List (Field σ)} {rows : List (Condition σ)}
      (hown : ∀ row ∈ rows, row.parent = none → ∀ field, row.field? = some field →
        (scope.find? fun other => other.target == field.target) = some field)
      (hinside : ∀ row ∈ rows, ∀ inner, row.Encloses restore inner →
        ∀ field relation, row.field? = some field → field.relation = some relation →
          OnOwnFields (Schema.fields relation.scope) inner)
      (hwords : ∀ row ∈ rows, ∀ inner, row.Encloses restore inner →
        ∀ field, row.field? = some field → field.kind? = some .toOne →
          ∀ sub ∈ inner, sub.parent = none → ∀ below, sub.field? = some below →
            ∀ operator : Operator, operator.isRelation = true → below.target ≠ operator.word) :
      OnOwnFields scope rows

section OnOwnFields

variable {scope : List (Field σ)} {rows : List (Condition σ)}

/-- The row that writes at a target is on the field that the scope has for it. -/
theorem OnOwnFields.find_of_fragment? (h : OnOwnFields scope rows) {row : Condition σ}
    (hrow : row ∈ rows) {target : String} {part : Object}
    (hwrites : fragment? row = some (target, part)) :
    ∃ field, row.field? = some field ∧
      (scope.find? fun other => other.target == target) = some field := by
  obtain ⟨hown, -, -⟩ := h
  obtain ⟨hparent, field, hfield, rfl⟩ := exists_field_of_fragment? hwrites
  exact ⟨field, hfield, hown row hrow hparent field hfield⟩

/-- The scope has all keys that such rows write. -/
theorem OnOwnFields.hasKeys (h : OnOwnFields scope rows) : HasKeys scope (compileRows rows) := by
  intro key hkey
  obtain ⟨row, hrow, part, hwrites⟩ := mem_keys_compileRows.1 hkey
  obtain ⟨field, -, hfind⟩ := h.find_of_fragment? hrow hwrites
  exact ⟨field, hfind⟩

end OnOwnFields

/-! ### What is read again -/

/-- A row on a relation keeps a filter, and writes what the rows that are restored from it are
compiled to. -/
structure Rewrites (rows : List (Condition σ)) (field : Field σ) (relation : Relation σ)
    (kept part : Object) (row : Condition σ) : Prop where
  mem : row ∈ rows
  onField : row.field? = some field
  encloses : row.Encloses restore (restore (Schema.fields relation.scope) kept)
  writes : ∃ operator, relationFragment? field operator
    (compileRows (restore (Schema.fields relation.scope) kept)) = some part

section Again

variable {scope : List (Field σ)} {filter : Object} {row : Condition σ}
  {inner : List (Condition σ)} {field : Field σ} {relation : Relation σ} {part : Object}

/-- A restored row that writes at the target of a relation writes its filter again. -/
theorem exists_rewrites (h : OnOwnFields scope (restore scope filter))
    (hrow : row ∈ restore scope filter) {target : String}
    (hfind : (scope.find? fun other => other.target == target) = some field)
    (htype : field.isRelation = true) (hrelation : field.relation = some relation)
    (hwrites : fragment? row = some (target, part)) :
    ∃ kept, Rewrites (restore scope filter) field relation kept part row := by
  obtain ⟨own, hfield, hown⟩ := h.find_of_fragment? hrow hwrites
  rw [hfind] at hown
  obtain rfl := Option.some.inj hown
  obtain ⟨hparent, -⟩ := exists_field_of_fragment? hwrites
  obtain ⟨head, value, hhead⟩ := exists_headRows_of_mem_restore hrow hparent
  obtain ⟨label, kept, rfl, -, hkept⟩ := exists_rowOf hhead
  obtain rfl : head = field := Option.some.inj hfield
  obtain ⟨kept, rfl⟩ := hkept.1 htype
  obtain ⟨⟨own, operator⟩, hcounted, hfragment⟩ := Option.bind_eq_some_iff.1 hwrites
  obtain rfl : head = own := Option.some.inj (field?_of_counted? hcounted)
  obtain ⟨other, hpart, heq⟩ := Option.map_eq_some_iff.1 hfragment
  obtain rfl := (Prod.mk.inj heq).2
  have hencloses : (rowOf head none label (.filter kept)).Encloses restore
      (restore (Schema.fields relation.scope) kept) :=
    ⟨head, operator, hcounted, contentBy_filter htype hrelation kept⟩
  refine ⟨kept, hrow, hfield, hencloses, operator, ?_⟩
  rw [← hpart]
  exact (fragmentWith?_filter htype hrelation operator kept compileRows).symm

/-- The rows that a row encloses when it is read from what restored rows wrote are read from
operators that restored rows on the same relation wrote. -/
theorem exists_operators (h : OnOwnFields scope (restore scope filter))
    (hrow : row ∈ restore scope (compileRows (restore scope filter)))
    (hencloses : row.Encloses restore inner) :
    ∃ field relation operators,
      (∃ pair ∈ innerFilters field operators,
        inner = restore (Schema.fields relation.scope) pair.2) ∧
      field.relation = some relation ∧
      (∃ kept part source, Rewrites (restore scope filter) field relation kept part source) ∧
      ∀ entry ∈ operators, ∃ kept part source,
        Rewrites (restore scope filter) field relation kept part source ∧ entry ∈ part := by
  obtain ⟨own, operator, hcounted, hcontent⟩ := hencloses
  have hparent := parent_of_counted? hcounted
  have htop : row ∈ topLevel (restore scope (compileRows (restore scope filter))) :=
    List.mem_filter.2 ⟨hrow, Option.isNone_iff_eq_none.2 hparent⟩
  rw [topLevel_restore_own h.hasKeys] at htop
  -- the row is read from one written key, whose value merges what rows on its field wrote
  obtain ⟨⟨target, value⟩, hentry, hown⟩ := List.mem_flatMap.1 htop
  obtain ⟨field, hfind⟩ := h.hasKeys target (Entries.mem_keys_of_mem hentry)
  rw [ownRows, hfind, Option.map_some, Option.getD_some] at hown
  obtain ⟨operators, rfl, -, hwriters⟩ := exists_writers hentry
  obtain rfl : own = field := Option.some.inj ((field?_of_counted? hcounted).symm.trans
    (Condition.field?_eq_some.2 (subject_of_mem_headRows hown)))
  have hnone : ∀ rows, row.value ≠ .conditions rows := by
    obtain ⟨label, kept, rfl, hkept, -⟩ := exists_rowOf hown
    exact hkept
  obtain ⟨htype, relation, kept, hrelation, hvalue, hinner⟩ :=
    exists_kept_of_content? hnone hcontent
  rw [headRows_relation htype] at hown
  obtain ⟨pair, hpair, hrowOf⟩ := List.mem_filterMap.1 hown
  obtain ⟨label, -, rfl⟩ := Option.map_eq_some_iff.1 hrowOf
  obtain rfl : pair.2 = kept := Value.filter.inj hvalue
  refine ⟨own, relation, operators, ⟨pair, hpair, hinner⟩, hrelation, ?_, fun entry hmem => ?_⟩
  · obtain ⟨source, hsource, part, hwrites⟩ :=
      mem_keys_compileRows.1 (Entries.mem_keys_of_mem hentry)
    obtain ⟨kept, hrewrites⟩ := exists_rewrites h hsource hfind htype hrelation hwrites
    exact ⟨kept, part, source, hrewrites⟩
  · obtain ⟨source, hsource, part, hwrites, hpart⟩ := hwriters entry hmem
    obtain ⟨kept, hrewrites⟩ := exists_rewrites h hsource hfind htype hrelation hwrites
    exact ⟨kept, part, source, hrewrites, hpart⟩

section Rewrites

variable {rows : List (Condition σ)} {kept : Object} {source : Condition σ}

/-- On a relation to many items such a row writes a filter below an operator. -/
theorem Rewrites.part_toMany (h : Rewrites rows field relation kept part source)
    (hkind : field.kind? = some .toMany) : ∃ operator, part =
      single operator (.object (compileRows (restore (Schema.fields relation.scope) kept))) := by
  obtain ⟨operator, hwrites⟩ := h.writes
  rw [relationFragment?_toMany hkind] at hwrites
  exact ⟨operator, (Option.some.inj hwrites).symm⟩

/-- On a relation to one item such a row writes a filter as it is. -/
theorem Rewrites.part_toOne (h : Rewrites rows field relation kept part source)
    (hkind : field.kind? = some .toOne) :
    part = compileRows (restore (Schema.fields relation.scope) kept) := by
  obtain ⟨operator, hwrites⟩ := h.writes
  rw [relationFragment?, hkind] at hwrites
  simp only [Option.ite_none_left_eq_some, Option.some.injEq] at hwrites
  exact hwrites.2.symm

/-- The rows of the filter that such a row keeps stand on their own fields. -/
theorem OnOwnFields.inside (h : OnOwnFields scope rows) (hrelation : field.relation = some relation)
    (hsource : Rewrites rows field relation kept part source) :
    OnOwnFields (Schema.fields relation.scope) (restore (Schema.fields relation.scope) kept) := by
  obtain ⟨-, hinside, -⟩ := h
  exact hinside source hsource.mem _ hsource.encloses field relation hsource.onField hrelation

/-- In a relation to one item no key is the word of an operator of relations. -/
theorem OnOwnFields.key_ne_word (h : OnOwnFields scope rows)
    (hsource : Rewrites rows field relation kept part source)
    (hkind : field.kind? = some .toOne) {key : String} (hkey : key ∈ Entries.keys part)
    {operator : Operator} (hoperator : operator.isRelation = true) : key ≠ operator.word := by
  obtain ⟨-, -, hwords⟩ := h
  rw [hsource.part_toOne hkind] at hkey
  obtain ⟨sub, hsub, _, hwrites⟩ := mem_keys_compileRows.1 hkey
  obtain ⟨hparent, below, hbelow, rfl⟩ := exists_field_of_fragment? hwrites
  exact hwords source hsource.mem _ hsource.encloses field hsource.onField hkind sub hsub hparent
    below hbelow operator hoperator

end Rewrites

/-- Each row without a parent that a row encloses when it is read from what restored rows wrote, is
read from what one of these wrote. -/
theorem exists_rewrites_of_mem (h : OnOwnFields scope (restore scope filter))
    (hrow : row ∈ restore scope (compileRows (restore scope filter)))
    (hencloses : row.Encloses restore inner) {sub : Condition σ} (hsub : sub ∈ topLevel inner) :
    ∃ field relation kept part source, field.relation = some relation ∧
      Rewrites (restore scope filter) field relation kept part source ∧
      sub ∈ restore (Schema.fields relation.scope)
        (compileRows (restore (Schema.fields relation.scope) kept)) := by
  obtain ⟨field, relation, operators, ⟨pair, hpair, rfl⟩, hrelation, -, hwriters⟩ :=
    exists_operators h hrow hencloses
  rcases exists_of_mem_innerFilters hpair with ⟨value, hmem, hvalue⟩ | ⟨hkind, hwhole⟩
  · obtain ⟨kept, part, source, hsource, hpart⟩ := hwriters _ hmem
    refine ⟨field, relation, kept, part, source, hrelation, hsource, ?_⟩
    have hkind := kind?_eq_some hrelation
    cases hk : relation.kind with
    | toMany =>
      -- the filter below the operator was written by one row as a whole
      rw [hk] at hkind
      obtain ⟨operator, rfl⟩ := hsource.part_toMany hkind
      obtain rfl := (Prod.mk.inj (List.mem_singleton.1 hpart)).2
      rw [hvalue] at hsub
      exact (List.mem_filter.1 hsub).1
    | toOne =>
      -- no row wrote a key that is taken for an operator
      rw [hk] at hkind
      obtain ⟨spec, hspec, hoperator⟩ := spec_of_mem_innerFilters hpair
      have hspecs : ∀ spec ∈ FieldType.relation.specs, spec.operator.isRelation = true := by decide
      exact absurd rfl (h.key_ne_word hsource hkind (Entries.mem_keys_of_mem hpart)
        (hoperator ▸ hspecs spec hspec))
  · -- no operator is written, and each entry of the whole was written by some row
    have hkeys : HasKeys (Schema.fields relation.scope) operators := by
      intro key hkey
      obtain ⟨value, hmem⟩ := Entries.mem_keys.1 hkey
      obtain ⟨kept, part, source, hsource, hpart⟩ := hwriters _ hmem
      rw [hsource.part_toOne hkind] at hpart
      exact (h.inside hrelation hsource).hasKeys key (Entries.mem_keys_of_mem hpart)
    rw [hwhole, topLevel_restore_own hkeys] at hsub
    obtain ⟨entry, hmem, hown⟩ := List.mem_flatMap.1 hsub
    obtain ⟨kept, part, source, hsource, hpart⟩ := hwriters entry hmem
    refine ⟨field, relation, kept, part, source, hrelation, hsource, ?_⟩
    rw [hsource.part_toOne hkind] at hpart
    have htop : sub ∈ topLevel (restore (Schema.fields relation.scope)
        (compileRows (restore (Schema.fields relation.scope) kept))) := by
      rw [topLevel_restore_own (h.inside hrelation hsource).hasKeys]
      exact List.mem_flatMap.2 ⟨entry, hpart, hown⟩
    exact (List.mem_filter.1 htop).1

end Again

/-! ### Nesting does not grow -/

/-- Rows on their own fields that are compiled and restored are not nested more often. -/
theorem nestedWithin_again {n : Nat} {scope : List (Field σ)} {filter : Object}
    (h : OnOwnFields scope (restore scope filter))
    (hnested : NestedWithin restore n (restore scope filter)) :
    NestedWithin restore n (restore scope (compileRows (restore scope filter))) := by
  -- by the number of levels; only rows without a parent enclose rows, and each of them is followed
  -- into the filter of the row that wrote it
  induction n generalizing scope filter with
  | zero =>
    intro row hrow inner hencloses
    obtain ⟨field, relation, operators, -, -, ⟨kept, part, source, hsource⟩, -⟩ :=
      exists_operators h hrow hencloses
    exact hnested source hsource.mem _ hsource.encloses
  | succ n ih =>
    intro row hrow inner hencloses
    refine nestedWithin_iff_forall.2 fun sub hsub => ?_
    obtain ⟨field, relation, kept, part, source, hrelation, hsource, hmem⟩ :=
      exists_rewrites_of_mem h hrow hencloses hsub
    have hheld := hnested source hsource.mem _ hsource.encloses
    have hagain := ih (h.inside hrelation hsource) hheld
    exact nestedWithin_iff_forall.1 hagain sub
      (List.mem_filter.2 ⟨hmem, (List.mem_filter.1 hsub).2⟩)

/-! ### Filters in every schema -/

/-- In every schema the recursions over filters end, whatever fields are found for the keys and
however many levels of relations are read: the limit on the levels is one of the numbers, and beyond
the number of nodes of a filter it cuts off nothing.  Bounded calls compile and say what unbounded
ones do, and compiling needs as many as rows are nested.  What is compiled from restored rows on
their own fields is not nested more often than the filter. -/
theorem filter_recursions_end :
    (∀ (find : Finder σ) levels, FilterReader.Ends (restoreBy find levels)) ∧
    (∀ (find : Finder σ) levels scope filter, (Json.object filter).size ≤ levels →
      restoreBy find levels scope filter = restoreBy find (Json.object filter).size scope filter) ∧
    restoreBy Resolver.find relationDepth = (restore : FilterReader σ) ∧
    (∀ calls (rows : List (Condition σ)) filter,
      compileBy restore calls rows = some filter → filter = compileRows rows) ∧
    (∀ calls (row : Condition σ), row.weight < calls →
      sentenceBy restore calls row = liftM row.sentence) ∧
    (∀ n (rows : List (Condition σ)),
      (compileBy restore (n + 1) rows).isSome ↔ NestedWithin restore n rows) ∧
    ∀ n (scope : List (Field σ)) filter, OnOwnFields scope (restore scope filter) →
      NestedWithin restore n (restore scope filter) →
        NestedWithin restore n (restore scope (compileRows (restore scope filter))) :=
  ⟨fun find levels => FilterReader.Shrinks.ends (shrinks_restoreBy find levels),
    fun _ _ scope _ hle => restoreBy_of_le hle scope,
    rfl,
    fun _ _ _ => eq_compileRows_of_compileBy,
    fun _ _ => sentenceBy_restore,
    fun _ _ => compileBy_isSome_iff,
    fun _ _ _ => nestedWithin_again⟩

/-! ### A team and its manager -/

/-- The company of a manager, a text. -/
def managerCompanyField : Field Source :=
  .scalar .text "team__manager__company" "Empresa"

/-- The name of a team's company. -/
def companyNameField : Field Source :=
  .scalar .text "team__company__name" "Nome"

/-- The company of a team, a relation with the same target as the text. -/
def teamCompanyField : Field Source :=
  .related .toOne "team__company" "Empresa" (.listed [companyNameField])

/-- The fields of a team. -/
def teamScope : Source :=
  .listed [.related .toOne "team__manager" "Gestor" (.listed [managerCompanyField]),
    teamCompanyField]

/-- A relation to a team. -/
def teamField : Field Source :=
  .related .toOne "team" "Equipe" teamScope

/-- A filter on the name of a team's company. -/
def companyNameFilter : Object :=
  [("company", .object [("name", .string "acme")])]

/-- The filter is read as a row on the company and one inside it. -/
theorem restore_companyNameFilter : restore (Schema.fields teamScope) companyNameFilter =
    [rowOf teamCompanyField none "possui" (.filter [("name", .string "acme")]),
      rowOf companyNameField (some "company") "igual a" (.text "acme")] := rfl

/-- Both rows stand on their own fields. -/
theorem onOwnFields_companyNameFilter : OnOwnFields (Schema.fields teamScope)
    (restore (Schema.fields teamScope) companyNameFilter) := by
  have hspec : (⟨"possui", .related, "→"⟩ : OperatorSpec) ∈ FieldType.relation.specs := by decide
  have hhead : ∀ row ∈ restore (Schema.fields teamScope) companyNameFilter, row.parent = none →
      row = rowOf teamCompanyField none "possui" (.filter [("name", .string "acme")]) := by
    rw [restore_companyNameFilter]
    intro row hrow hparent
    rcases List.mem_cons.1 hrow with rfl | hrow
    · rfl
    · rw [List.mem_singleton.1 hrow] at hparent
      exact absurd hparent (Option.some_ne_none "company")
  have hrelation : teamCompanyField.relation = some ⟨.toOne, .listed [companyNameField]⟩ := rfl
  have hinner : ∀ row ∈ restore (Schema.fields teamScope) companyNameFilter, ∀ inner,
      row.Encloses restore inner → row.field? = some teamCompanyField ∧
        inner = [rowOf companyNameField none "igual a" (.text "acme")] := by
    intro row hrow inner hencloses
    by_cases hparent : row.parent = none
    · obtain rfl := hhead row hrow hparent
      exact ⟨rfl, (encloses_rowOf_iff rfl hrelation hspec).1 hencloses⟩
    · exact absurd hencloses (not_encloses_of_parent hparent)
  have hname : OnOwnFields [companyNameField]
      [rowOf companyNameField none "igual a" (.text "acme")] := by
    refine .rows (fun row hrow _ field hfield => ?_) (fun row hrow inner hencloses => ?_)
      fun row hrow inner hencloses => ?_
    · obtain rfl := List.mem_singleton.1 hrow
      obtain rfl := Option.some.inj hfield
      rfl
    · obtain rfl := List.mem_singleton.1 hrow
      exact absurd hencloses (not_encloses_of_scalar rfl rfl)
    · obtain rfl := List.mem_singleton.1 hrow
      exact absurd hencloses (not_encloses_of_scalar rfl rfl)
  refine .rows (fun row hrow hparent field hfield => ?_)
    (fun row hrow inner hencloses field relation hfield hrelation => ?_)
    fun row hrow inner hencloses field hfield _ sub hsub _ below hbelow operator _ => ?_
  · obtain rfl := hhead row hrow hparent
    obtain rfl := Option.some.inj hfield
    rfl
  · obtain ⟨hcompany, rfl⟩ := hinner row hrow inner hencloses
    obtain rfl := Option.some.inj (hcompany.symm.trans hfield)
    obtain rfl := Option.some.inj hrelation
    exact hname
  · obtain ⟨-, rfl⟩ := hinner row hrow inner hencloses
    obtain rfl := List.mem_singleton.1 hsub
    obtain rfl := Option.some.inj hbelow
    cases operator <;> decide

/-- The filter on the name of a team's company is read with four levels as with three, its rows are
compiled with three calls and put into words, and they are not nested more often when what they are
compiled to is restored. -/
theorem companyNameFilter_recursions_end :
    let rows := restore (Schema.fields teamScope) companyNameFilter
    restoreBy Resolver.find 4 (Schema.fields teamScope) companyNameFilter =
        restoreBy Resolver.find 3 (Schema.fields teamScope) companyNameFilter ∧
      compileBy restore 3 rows = some (compileRows rows) ∧
      (∀ row ∈ rows, sentenceBy restore 3 row = liftM row.sentence) ∧
      NestedWithin restore 2 rows ∧
      NestedWithin restore 2 (restore (Schema.fields teamScope) (compileRows rows)) := by
  intro rows
  obtain ⟨hends, hlevels, hrestore, hcompiled, hwords, hcalls, hnested⟩ :=
    @filter_recursions_end Source _
  have hsize : (Json.object companyNameFilter).size ≤ 4 := by decide
  have hweight : rowsWeight rows < 3 := by decide
  have hsome : (compileBy restore 3 rows).isSome := by
    rw [← hrestore]
    exact (hends Resolver.find relationDepth).compiles rows 3 hweight
  obtain ⟨filter, hfilter⟩ := Option.isSome_iff_exists.1 hsome
  have hrows : NestedWithin restore 2 rows := (hcalls 2 rows).1 hsome
  refine ⟨hlevels Resolver.find 4 _ _ hsize, ?_, fun row hrow => ?_, hrows,
    hnested 2 _ _ onOwnFields_companyNameFilter hrows⟩
  · rw [hfilter, hcompiled 3 rows filter hfilter]
  · exact hwords 3 row (Nat.lt_of_le_of_lt (weight_le_rowsWeight hrow) hweight)

/-- A key within a team that is the name of a field further down, but the target of none of the
team's own fields. -/
def hoistedFilter : Object :=
  [("team", .object [("team__manager__company", .string "acme")])]

/-- The company within a team that is compiled from it. -/
def hoistedInner : Object :=
  [("company", .object [("equals", .string "acme"), ("mode", .string insensitive)])]

/-- The key within the team is kept by one row on the team. -/
theorem restore_hoistedFilter : restore [teamField] hoistedFilter =
    [rowOf teamField none "possui" (.filter [("team__manager__company", .string "acme")])] := rfl

/-- Read against the fields of a team, the key is found further down, as a text of the manager. -/
theorem restore_hoisted : restore (Schema.fields teamScope)
    [("team__manager__company", .string "acme")] =
      [rowOf managerCompanyField none "igual a" (.text "acme")] := rfl

/-- The text of the manager is written as the company of the team. -/
theorem compileRows_hoistedFilter :
    compileRows (restore [teamField] hoistedFilter) = [("team", .object hoistedInner)] := by
  have hinner : recompiled teamScope [("team__manager__company", .string "acme")] =
      hoistedInner := by
    rw [recompiled, restore_hoisted, compileRows_eq]
    unfold fragment? fragmentWith?
    rfl
  have hspec : (⟨"possui", .related, "→"⟩ : OperatorSpec) ∈ FieldType.relation.specs := by decide
  have hwrites : fragment? (rowOf teamField none "possui"
      (.filter [("team__manager__company", .string "acme")])) = some ("team", hoistedInner) := by
    rw [fragment?_rowOf_filter rfl rfl hspec, hinner]
    rfl
  rw [restore_hoistedFilter, compileRows_eq, List.filterMap_cons_some hwrites]
  rfl

/-- What is written so is read as a relation within the team. -/
theorem restore_hoistedInner : restore (Schema.fields teamScope) hoistedInner =
    [rowOf teamCompanyField none "possui"
      (.filter [("equals", .string "acme"), ("mode", .string insensitive)])] := rfl

/-- The key within the team makes a relation within the team out of a text of the manager. -/
theorem hoistedFilter_nested_again :
    NestedWithin restore 1 (restore [teamField] hoistedFilter) ∧
      ¬ NestedWithin restore 1
        (restore [teamField] (compileRows (restore [teamField] hoistedFilter))) := by
  have hspec : (⟨"possui", .related, "→"⟩ : OperatorSpec) ∈ FieldType.relation.specs := by decide
  have hteam : teamField.relation = some ⟨.toOne, teamScope⟩ := rfl
  constructor
  · rw [restore_hoistedFilter]
    intro row hrow inner hencloses sub hsub
    obtain rfl := List.mem_singleton.1 hrow
    rw [(encloses_rowOf_iff rfl hteam hspec).1 hencloses, restore_hoisted] at hsub
    obtain rfl := List.mem_singleton.1 hsub
    exact fun _ => not_encloses_of_scalar rfl rfl
  · rw [compileRows_hoistedFilter]
    intro hnested
    have hrow : rowOf teamField none "possui" (.filter hoistedInner) ∈
        restore [teamField] [("team", .object hoistedInner)] := List.mem_cons_self
    have hinner := hnested _ hrow _ ((encloses_rowOf_iff rfl hteam hspec).2 rfl)
    rw [restore_hoistedInner] at hinner
    exact hinner _ List.mem_cons_self _ ((encloses_rowOf_iff rfl rfl hspec).2 rfl)

end QueryFilter
