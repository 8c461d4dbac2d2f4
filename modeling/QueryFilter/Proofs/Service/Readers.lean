import QueryFilter.Proofs.Filter.Walk
import QueryFilter.Proofs.Filter.Words
import QueryFilter.Proofs.Service.Return

/-!
# The readers of a relation

A row on a relation keeps the filter inside the relation, and three readers go by it: the rows
behind it in a restored query string are those that the walk finds in the filter
(`shownInside`), while its words and the filter it writes come from the rows that the filter is
restored to by itself (`countedInside`).

An entry of the filter is read alike if and only if its key is a target of the scope, or neither
reader finds a row for it (`readers_agree_iff`).  A key that is the name of a field within the
scope is shown and does not count.
-/

namespace QueryFilter

open Catalog Compile Restore

namespace Service

/-! ### Readers -/

/-- The rows that are restored for the filter inside a relation at a path, with so many levels of
relations left. -/
def rowsInside (resource : Resource) (left : Nat) (scope : Scope) (path : String)
    (inner : Object) : List (Condition Scope) :=
  Resolver.eval (fields resource) (levelRows left (fieldsOf scope) (some path) inner)

/-- Of these the rows for the entries of the filter, which have the path as their parent. -/
def shownInside (resource : Resource) (left : Nat) (scope : Scope) (path : String)
    (inner : Object) : List (Condition Scope) :=
  childrenOf (some path) (rowsInside resource left scope path inner)

/-- The rows that the filter inside a relation is restored to by itself. -/
def countedInside (scope : Scope) (inner : Object) : List (Condition Scope) :=
  topLevel (restore (fieldsOf scope) inner)

/-- The rows that are shown for a filter inside a relation are those that count, in field, operator
and value. -/
def ReadAlike (resource : Resource) (left : Nat) (scope : Scope) (path : String)
    (inner : Object) : Prop :=
  (shownInside resource left scope path inner).map Condition.alone = countedInside scope inner

section Readers

variable {resource : Resource} {scope : Scope}

/-- The rows inside a relation are those of asking afresh. -/
theorem rowsInside_eq (hscope : Reaches resource scope) (left : Nat) (path : String)
    (inner : Object) :
    rowsInside resource left scope path inner =
      rowsAfresh (fields resource) left (fieldsOf scope) (some path) inner :=
  (levelRows_answers (universe_known resource) known_fields left hscope.known _ _).eval

/-- The rows shown inside a relation come from the keys of its filter, as long as there are levels
left. -/
theorem shownInside_succ (hscope : Reaches resource scope) (left : Nat) (path : String)
    (inner : Object) :
    shownInside resource (left + 1) scope path inner =
      inner.flatMap (rowsAt (fields resource) (fieldsOf scope) (some path)) := by
  rw [shownInside, rowsInside_eq hscope, childrenOf_rowsAfresh]

/-- The rows that count inside a relation come from the keys of its filter, read on their own. -/
theorem countedInside_eq (hscope : Reaches resource scope) (inner : Object) :
    countedInside scope inner = inner.flatMap (keyRows (fieldsOf scope)) :=
  topLevel_restore (universe_known resource) hscope.known inner

/-- Entries that are read alike make a filter that is read alike. -/
theorem readAlike_of_entries (hscope : Reaches resource scope) {left : Nat} {path : String}
    {inner : Object}
    (h : ∀ entry ∈ inner, ReadAlike resource (left + 1) scope path [entry]) :
    ReadAlike resource (left + 1) scope path inner := by
  rw [ReadAlike, shownInside_succ hscope, countedInside_eq hscope, List.map_flatMap]
  refine List.flatMap_congr fun entry hentry => ?_
  have halike := h entry hentry
  rwa [ReadAlike, shownInside_succ hscope, countedInside_eq hscope, List.flatMap_singleton,
    List.flatMap_singleton] at halike

/-- An entry is read alike if and only if its key is a target of the scope, or there is no row for
it. -/
theorem readAlike_entry_iff {filter inner : Object} {left : Nat} {path : String}
    (h : Walks resource filter (left + 1) scope (some path) inner) (entry : String × Json) :
    ReadAlike resource (left + 1) scope path [entry] ↔
      (∃ own ∈ fieldsOf scope, own.target = entry.1) ∨
        shownInside resource (left + 1) scope path [entry] = [] ∧
          countedInside scope [entry] = [] := by
  rw [ReadAlike, shownInside_succ h.reaches, countedInside_eq h.reaches, List.flatMap_singleton,
    List.flatMap_singleton]
  exact h.rowsAt_agree_iff entry

/-- The filter that a row on a relation writes comes from the rows that count. -/
theorem fragmentWith?_countedInside {field : Field Scope} (hknown : Known resource field)
    {relation : Relation Scope} (hrelation : field.relation = some relation) (operator : Operator)
    (inner : Object) :
    fragmentWith? field operator (.filter inner) compileRows =
      relationFragment? field operator (compileRows (countedInside relation.scope inner)) := by
  have htype := hknown.isRelation_iff.2 ⟨relation, hrelation⟩
  rw [fragmentWith?_filter htype hrelation, countedInside, compileRows_topLevel]
  rfl

end Readers

/-! ### Restored query strings -/

/-- The rows of a query string are restored ones. -/
theorem restored_of_mem_restoreQuery {resource : Resource} {q : Option String}
    {row : Condition Scope} (h : row ∈ restoreQuery resource q) : row.Restored resource := by
  rw [restoreQuery_eq] at h
  exact restored_of_mem_restore .start h

/-- A client sees each restored row with the words that it has by itself. -/
theorem restoreViews_description (resource : Resource) (q : Option String) :
    (restoreViews resource q).map ConditionView.description =
      (restoreQuery resource q).map (Condition.words resource) := by
  have hview : ∀ row ∈ restoreQuery resource q,
      Lookup.Answers (Known resource) (fields resource) (view row)
        { id := row.id
          field := row.subject.name
          label := row.label
          operator := row.operator
          value := row.value.toJson
          parent := row.parent
          description := row.words resource
          chip := row.chip } := by
    intro row hrow
    apply Lookup.Answers.bind (Condition.sentence_answers (restored_of_mem_restoreQuery hrow))
    exact Lookup.Answers.pure _
  rw [restoreViews, (Lookup.Answers.mapM hview).eval, List.map_map]
  rfl

/-- The readers of a relation.  A row that keeps a filter writes and says what counts of the filter;
behind it stand the rows that the walk finds in the filter.  If there are levels left, the entries
of the filter are read alike if and only if their keys are targets of the scope or have no rows, and
then the filter as a whole is. -/
theorem readers_agree_iff {resource : Resource} {q : Option String}
    {before after : List (Condition Scope)} {row : Condition Scope}
    (hrows : restoreQuery resource q = before ++ row :: after) {inner : Object}
    (hvalue : row.value = .filter inner) :
    ∃ field relation, row.field? = some field ∧ field.relation = some relation ∧
      (∀ operator, fragmentWith? field operator row.value compileRows =
        relationFragment? field operator (compileRows (countedInside relation.scope inner))) ∧
      row.words resource =
        row.headline ((countedInside relation.scope inner).map (Condition.words resource)) ∧
      ∃ left key rest,
        Opens resource ((q.bind Query.deserialize).getD []) left field row.parent key inner ∧
        after = rowsInside resource left relation.scope (pathOf row.parent key) inner ++ rest ∧
        (left ≠ 0 →
          ((∀ entry ∈ inner,
              ReadAlike resource left relation.scope (pathOf row.parent key) [entry]) ↔
            ∀ entry ∈ inner, (∃ own ∈ fieldsOf relation.scope, own.target = entry.1) ∨
              shownInside resource left relation.scope (pathOf row.parent key) [entry] = [] ∧
                countedInside relation.scope [entry] = []) ∧
          ((∀ entry ∈ inner,
              ReadAlike resource left relation.scope (pathOf row.parent key) [entry]) →
            ReadAlike resource left relation.scope (pathOf row.parent key) inner)) := by
  have hmem : row ∈ restoreQuery resource q := by
    rw [hrows]
    exact List.mem_append_right _ List.mem_cons_self
  obtain ⟨field, hfield, hknown, -, hfilter⟩ := restored_of_mem_restoreQuery hmem
  obtain ⟨relation, hrelation⟩ := hknown.isRelation_iff.1 (hfilter.2 ⟨inner, hvalue⟩)
  refine ⟨field, relation, hfield, hrelation, fun operator => ?_,
    Condition.words_filter hfield hknown hrelation hvalue, ?_⟩
  · rw [hvalue]
    exact fragmentWith?_countedInside hknown hrelation operator inner
  rw [restoreQuery_eq, restore_eq (universe_known resource) known_fields] at hrows
  have hsubject := Condition.field?_eq_some.1 hfield
  obtain ⟨left, key, rest, hopens, rfl⟩ := exists_opens .start hrows hsubject hrelation hvalue
  have hwalk := hopens.walks hrelation
  refine ⟨left, key, rest, hopens, ?_, fun hleft => ?_⟩
  · rw [rowsInside_eq hwalk.reaches]
  · obtain ⟨left, rfl⟩ := Nat.exists_eq_succ_of_ne_zero hleft
    refine ⟨?_, readAlike_of_entries hwalk.reaches⟩
    exact forall₂_congr fun entry _ => readAlike_entry_iff hwalk entry

/-! ### Examples on companies -/

/-- The name of a company is shown and counts. -/
theorem acme_readAlike :
    restoreQuery .staff (some "company[name][contains]=acme") = acmeRows (some "company") ∧
    ∃ key, ReadAlike .staff 2 ⟨.companies, "company__"⟩ key
      [("name", .object [("contains", .string "acme")])] := by
  have hrows : restoreQuery .staff (some "company[name][contains]=acme") =
      [] ++ rowOf companyField none "possui"
          (.filter [("name", .object [("contains", .string "acme")])]) ::
        [rowOf (.scalar .text "company__name" "Nome") (some "company") "contém" (.text "acme")] :=
    restoreQuery_acme
  refine ⟨restoreQuery_acme, ?_⟩
  obtain ⟨field, relation, hfield, hrelation, -, -, left, key, rest, hopens, -, halike⟩ :=
    readers_agree_iff hrows rfl
  obtain rfl := Option.some.inj hfield
  obtain rfl := Option.some.inj hrelation
  obtain rfl := hopens.left_eq
  obtain ⟨hiff, hwhole⟩ := halike (by decide)
  have htarget : ∃ own ∈ fieldsOf ⟨.companies, "company__"⟩, own.target = "name" := by decide
  refine ⟨pathOf none key, hwhole (hiff.2 fun entry hentry => .inl ?_)⟩
  obtain rfl := List.mem_singleton.1 hentry
  exact htarget

/-- The filter of companies with a date under the name of the field. -/
def createdFilter : Object :=
  [("created_at", .object [("gt", .string "2024-01-01")])]

/-- The restored rows: one on the relation, and one on the date inside it. -/
def createdRows : List (Condition Scope) :=
  [rowOf companyField none "possui" (.filter createdFilter),
    rowOf ((Field.scalar .date "company__created_at" "Criada em").withTarget "createdAt")
      (some "company") "depois de" (.text "2024-01-01")]

/-- The date is read as a row inside the one on the company. -/
theorem restoreQuery_created :
    restoreQuery .staff (some "company[created_at][gt]=2024-01-01") = createdRows := by
  have hkeyed : EntriesWellKeyed [("company", .object createdFilter)] := by
    simp [createdFilter, EntriesWellKeyed, Json.WellKeyed]
  have hquery : Query.serialize .standard "" (.object [("company", .object createdFilter)]) =
      "company[created_at][gt]=2024-01-01" := rfl
  rw [← hquery, restoreQuery_serialize .staff hkeyed (List.cons_ne_nil _ _)]
  rfl

/-- Read on its own, the filter of companies has no key that counts. -/
theorem countedInside_created :
    countedInside ⟨.companies, "company__"⟩ createdFilter = [] := by
  have hnone : lookup (fieldsOf ⟨.companies, "company__"⟩) (fieldsOf ⟨.companies, "company__"⟩)
      "created_at" "created_at" = none := by decide
  have hreach : Reaches .staff ⟨.companies, "company__"⟩ :=
    .step .start companyField_mem rfl
  rw [countedInside_eq hreach, createdFilter, List.flatMap_singleton, keyRows, hnone]
  rfl

/-- Nothing counts inside the relation, so that its row writes nothing. -/
theorem compileRows_created : compileRows createdRows = [] := by
  have hspec : (⟨"possui", .related, "→"⟩ : OperatorSpec) ∈ FieldType.relation.specs := by decide
  have hinner : recompiled (⟨.companies, "company__"⟩ : Scope) createdFilter = [] := by
    rw [recompiled, ← compileRows_topLevel]
    exact (congrArg compileRows countedInside_created).trans compileRows_nil
  have hcompany : fragment? (rowOf companyField none "possui" (.filter createdFilter)) = none := by
    have hlead : companyField.relation = some ⟨.toOne, ⟨.companies, "company__"⟩⟩ := rfl
    have hwrites := fragment?_rowOf_filter rfl hlead hspec createdFilter
    rw [hinner] at hwrites
    exact hwrites
  rw [← compileRows_topLevel, compileRows_eq]
  change toFilter (merge ([rowOf companyField none "possui" (.filter createdFilter)].filterMap
    fragment?)) = []
  rw [List.filterMap_cons_none hcompany]
  rfl

/-- The row on the date is shown under the relation, but it is none of the rows that count. -/
theorem created_not_readAlike :
    restoreQuery .staff (some "company[created_at][gt]=2024-01-01") = createdRows ∧
    shownInside .staff 2 ⟨.companies, "company__"⟩ "company" createdFilter =
      createdRows.drop 1 ∧
    countedInside ⟨.companies, "company__"⟩ createdFilter = [] ∧
    ¬ ReadAlike .staff 2 ⟨.companies, "company__"⟩ "company" createdFilter ∧
    (restoreViews .staff (some "company[created_at][gt]=2024-01-01")).map
      ConditionView.description = ["Empresa possui", "Criada em depois de 2024-01-01"] ∧
    sanitize .staff (some "company[created_at][gt]=2024-01-01") = some [] := by
  have hshown : shownInside .staff 2 ⟨.companies, "company__"⟩ "company" createdFilter =
      createdRows.drop 1 := rfl
  refine ⟨restoreQuery_created, hshown, countedInside_created, ?_, ?_, ?_⟩
  · rw [ReadAlike, hshown, countedInside_created]
    exact List.cons_ne_nil _ _
  · have hknown : Known .staff companyField := known_fields _ companyField_mem
    have hcompany : (rowOf companyField none "possui" (.filter createdFilter)).words .staff =
        "Empresa possui" := by
      rw [Condition.words_filter rfl hknown rfl rfl]
      rfl
    have hdate : (rowOf ((Field.scalar .date "company__created_at" "Criada em").withTarget
        "createdAt") (some "company") "depois de" (.text "2024-01-01") :
          Condition Scope).words .staff = "Criada em depois de 2024-01-01" := by
      rw [Condition.words, Condition.sentence]
      rfl
    rw [restoreViews_description, restoreQuery_created, createdRows, List.map_cons, List.map_cons,
      hcompany, hdate, List.map_nil]
  · have hne : createdRows ≠ [] := List.cons_ne_nil _ _
    rw [sanitize, restoreQuery_created, compile_of_ne_nil hne, compileRows_created]

end Service

end QueryFilter
