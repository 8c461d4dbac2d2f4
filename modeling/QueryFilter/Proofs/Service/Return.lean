import QueryFilter.Proofs.Catalog.Fields
import QueryFilter.Proofs.Filter.Recompile
import QueryFilter.Proofs.Query.Bracket
import QueryFilter.Proofs.Service.Intake
import QueryFilter.Service.Filters

/-!
# Restored rows that are posted back

A client that restores a query string may send the rows back.  A row that it sends has no parent, so
that only the rows without a parent may be sent: these are accepted as they are
(`postedBack_accepts`), and they are compiled to the filter that a listing of the same query string
forwards (`postedBack_compile`).
-/

namespace QueryFilter

open Catalog (Scope fields fieldsOf Known)
open Compile Restore

/-! ### Rows as a client sees and sends them -/

/-- What a client sends to post a restored row back. -/
def ConditionView.toInput (view : ConditionView) : ConditionInput :=
  ⟨view.id, view.field, view.operator, view.value⟩

/-- What a client sends for a row. -/
def Condition.toInput {σ : Type} (row : Condition σ) : ConditionInput :=
  ⟨row.id, row.subject.name, row.operator, row.value.toJson⟩

namespace Service

/-- What a client sends to post the restored rows without a parent back. -/
def postedBack (resource : Resource) (q : Option String) : List ConditionInput :=
  ((restoreViews resource q).filter fun view => view.parent.isNone).map ConditionView.toInput

/-- A view says all that a client sends, whatever the resolver knows. -/
theorem views_eq {σ : Type} [Schema σ] (rows : List (Condition σ)) (resolver : Resolver σ) :
    (rows.mapM view resolver).1.map (fun view => (view.parent, view.toInput)) =
      rows.map fun row => (row.parent, row.toInput) := by
  induction rows generalizing resolver with
  | nil => rfl
  | cons row rows ih =>
    have hview : ((view row resolver).1.parent, (view row resolver).1.toInput) =
        (row.parent, row.toInput) := rfl
    rw [List.mapM_cons, Lookup.run_bind, Lookup.run_bind, Lookup.run_pure, List.map_cons, ih, hview,
      List.map_cons]

/-- Shown rows are posted back as their field, operator and value. -/
theorem views_toInput {σ : Type} [Schema σ] (rows : List (Condition σ)) (resolver : Resolver σ) :
    (rows.mapM view resolver).1.map ConditionView.toInput = rows.map Condition.toInput := by
  have hviews := congrArg (List.map Prod.snd) (views_eq rows resolver)
  simp only [List.map_map] at hviews
  exact hviews

/-- What is posted back are the rows without a parent. -/
theorem postedBack_eq (resource : Resource) (q : Option String) :
    postedBack resource q = (topLevel (restoreQuery resource q)).map Condition.toInput := by
  have hviews := views_eq (restoreQuery resource q) (.new (fields resource))
  have hkept := congrArg (fun pairs : List (Option String × ConditionInput) =>
    (pairs.filter fun pair => pair.1.isNone).map Prod.snd) hviews
  simp only [List.filter_map, List.map_map] at hkept
  exact hkept

end Service

/-! ### Values -/

/-- A value without rows is read back from its JSON. -/
theorem Value.ofJson_toJson {σ : Type} {value : Value σ} (h : ∀ rows, value ≠ .conditions rows) :
    Value.ofJson value.toJson = value := by
  cases value with
  | text s => rfl
  | list texts =>
    have htexts : (texts.map Json.string).map Json.plainText = texts := by
      rw [List.map_map]
      exact List.map_id' texts
    exact congrArg Value.list htexts
  | bool b => rfl
  | conditions rows => exact absurd rfl (h rows)
  | filter entries => rfl

/-! ### Rows that are accepted -/

namespace Service

open Intake

variable {resource : Resource}

/-- A field of the first levels is found by its name. -/
theorem field_accepts {field : Field Scope}
    (h : field ∈ levels (relationDepth - 1) (fields resource)) :
    Accepts (Known resource) (fields resource) (Intake.field (fields resource) field.name)
      field := by
  have hu := Catalog.universe_known resource
  have hroot : ∀ field ∈ fields resource, Known resource field := Catalog.known_fields
  have hknown := hu.mem_levels hroot field h
  unfold Intake.field
  cases hfind : (fields resource).find? fun other =>
      other.name == field.name || other.target == field.name with
  | some other =>
    have hmem := List.mem_of_find?_eq_some hfind
    have hmatch := List.find?_some hfind
    rw [Bool.or_eq_true, beq_iff_eq, beq_iff_eq] at hmatch
    obtain rfl : other = field := by
      rcases hmatch with hname | htarget
      · exact hu.unique (hroot other hmem) hknown hname
      · exact Catalog.eq_of_target_eq_name hmem hknown htarget
    exact Accepts.pure other
  | none =>
    have hlookup : lookup (fields resource) (fields resource) field.name field.name =
        some field := by
      have hscope : (fields resource).find? (fun other => other.target == field.name) = none := by
        refine List.find?_eq_none.2 fun other hmem htarget => ?_
        refine List.find?_eq_none.1 hfind other hmem ?_
        rw [htarget, Bool.or_true]
      rw [lookup, hscope, Option.none_or, Catalog.find?_name h, Option.some_or]
    have hanswers := Resolver.find_answers hu hroot (fields resource) field.name field.name
    rw [hlookup] at hanswers
    apply Accepts.bind (Accepts.lift hanswers)
    exact Accepts.pure field

/-- A restored row without a parent is accepted as it is. -/
theorem row_accepts {filter : Object} {row : Condition Scope}
    (h : row ∈ topLevel (restore (fields resource) filter))
    (nested : Field Scope → List Json → Intake Scope (List (Condition Scope))) :
    Accepts (Known resource) (fields resource)
      (Intake.row nested (fields resource) row.toInput) row := by
  rw [topLevel_restore (Catalog.universe_known resource) Catalog.known_fields] at h
  obtain ⟨entry, -, hrow⟩ := List.mem_flatMap.1 h
  obtain ⟨field, hfield, -, hhead⟩ := field_of_mem_keyRows hrow
  obtain ⟨label, value, rfl, hvalue, hfilter⟩ := exists_rowOf hhead
  have hvalue : Accepts (Known resource) (fields resource)
      (Intake.value nested field value.toJson) value := by
    unfold Intake.value
    by_cases hrelation : field.isRelation = true
    · obtain ⟨inner, rfl⟩ := hfilter.1 hrelation
      rw [if_pos hrelation]
      exact Accepts.pure _
    · rw [if_neg hrelation, Value.ofJson_toJson hvalue]
      exact Accepts.pure value
  exact Accepts.row (field_accepts hfield) hvalue

/-- A query string without a filter has the rows of an empty one. -/
theorem restoreQuery_eq (resource : Resource) (q : Option String) :
    restoreQuery resource q =
      restore (fields resource) ((q.bind Query.deserialize).getD []) := by
  rw [restoreQuery]
  cases q.bind Query.deserialize <;> rfl

/-- The rows of a published query string are those of what survives of the filter. -/
theorem restoreQuery_serialize (resource : Resource) {filter : Object}
    (hkeyed : EntriesWellKeyed filter) (hne : Query.survivingEntries .standard filter ≠ []) :
    restoreQuery resource (some (Query.serialize .standard "" (.object filter))) =
      restore (fields resource) (Query.survivingEntries .standard filter) := by
  rw [restoreQuery_eq, Option.bind_some, Query.deserialize_serialize hkeyed hne, Option.getD_some]

/-- The restored rows without a parent are accepted as they are. -/
theorem postedBack_accepts (resource : Resource) (q : Option String) :
    Intake.run (fields resource) (rowsOfInputs (fields resource) (postedBack resource q)) =
      .ok (topLevel (restoreQuery resource q)) := by
  have hrows : ∀ nested : Field Scope → List Json → Intake Scope (List (Condition Scope)),
      ∀ row ∈ topLevel (restoreQuery resource q), Accepts (Known resource) (fields resource)
        (Intake.row nested (fields resource) row.toInput) row := by
    intro nested row hrow
    rw [restoreQuery_eq] at hrow
    exact row_accepts hrow nested
  have haccepts := Accepts.mapM (g := fun row => row) (hrows fun field values => do
    let nested ← items values
    Intake.rows (relationDepth - 2) (← Resolver.relationFields field) nested)
  rw [List.map_id'] at haccepts
  have hposted : Accepts (Known resource) (fields resource)
      (rowsOfInputs (fields resource) (postedBack resource q))
      (topLevel (restoreQuery resource q)) := by
    rw [postedBack_eq, rowsOfInputs]
    change Accepts _ _ (List.mapM _ (List.map _ _)) _
    rw [List.mapM_map]
    exact haccepts
  exact hposted.run

/-- Accepted rows are compiled. -/
theorem compileInputs_eq {inputs : List ConditionInput} {rows : List (Condition Scope)}
    (h : Intake.run (fields resource) (rowsOfInputs (fields resource) inputs) = .ok rows) :
    compileInputs resource inputs = .ok ⟨compile rows, ((compile rows).map fun filter =>
      Query.serialize .standard "" (.object filter)).getD ""⟩ := by
  simp only [compileInputs, h]
  rfl

/-- Posting back: the restored rows without a parent are compiled to the filter that a listing of
the same query string forwards, no filter counting as an empty one. -/
theorem postedBack_compile (resource : Resource) (q : Option String) :
    ∃ compiled, compileInputs resource (postedBack resource q) = .ok compiled ∧
      compiled.filter.getD [] = (sanitize resource q).getD [] := by
  refine ⟨_, compileInputs_eq (postedBack_accepts resource q), ?_⟩
  rw [sanitize, getD_compile, getD_compile, Compile.compileRows_topLevel]

/-! ### An example -/

/-- The restored rows that say that the name of the company contains `acme`: a row on the relation,
and a row with a given parent on the name inside it. -/
def acmeRows (parent : Option String) : List (Condition Scope) :=
  [rowOf (.related .toOne "company" "Empresa" ⟨.companies, "company__"⟩) none "possui"
      (.filter [("name", .object [("contains", .string "acme")])]),
    rowOf (.scalar .text "company__name" "Nome") parent "contém" (.text "acme")]

/-- The filter of companies whose name contains `acme`. -/
def acmeFilter : Object :=
  [("name", .object [("contains", .string "acme"), ("mode", .string "insensitive")])]

/-- The name of the company is read as a row inside the one on the company. -/
theorem restoreQuery_acme :
    restoreQuery .staff (some "company[name][contains]=acme") = acmeRows (some "company") := by
  have hkeyed : EntriesWellKeyed
      [("company", .object [("name", .object [("contains", .string "acme")])])] := by
    simp [EntriesWellKeyed, Json.WellKeyed]
  have hquery : Query.serialize .standard ""
      (.object [("company", .object [("name", .object [("contains", .string "acme")])])]) =
        "company[name][contains]=acme" := rfl
  rw [← hquery, restoreQuery_serialize .staff hkeyed (List.cons_ne_nil _ _)]
  rfl

/-- The row on the name is compiled to its filter. -/
theorem compileRows_acmeName :
    compileRows [(rowOf (.scalar .text "company__name" "Nome") none "contém" (.text "acme") :
      Condition Scope)] = acmeFilter := by
  rw [compileRows_eq]
  unfold fragment? fragmentWith?
  rfl

/-- The row on the relation writes the filter of companies. -/
theorem fragment?_acmeCompany :
    fragment? (rowOf (.related .toOne "company" "Empresa" ⟨.companies, "company__"⟩) none "possui"
      (.filter [("name", .object [("contains", .string "acme")])]) : Condition Scope) =
        some ("company", acmeFilter) := by
  have hspec : (⟨"possui", .related, "→"⟩ : OperatorSpec) ∈ FieldType.relation.specs := by decide
  have hlead : Catalog.companyField.relation = some ⟨.toOne, ⟨.companies, "company__"⟩⟩ := rfl
  have hinner : restore (Schema.fields (⟨.companies, "company__"⟩ : Scope))
      [("name", .object [("contains", .string "acme")])] =
        [rowOf (.scalar .text "company__name" "Nome") none "contém" (.text "acme")] := rfl
  have hwrites := fragment?_rowOf_filter rfl hlead hspec
    [("name", .object [("contains", .string "acme")])]
  rw [recompiled, hinner, compileRows_acmeName] at hwrites
  exact hwrites

/-- Without its parent the row inside the relation is compiled as a row on staff. -/
theorem allViews_compile :
    ∃ compiled, compileInputs .staff
        ((restoreViews .staff (some "company[name][contains]=acme")).map
          ConditionView.toInput) = .ok compiled ∧
      compiled.filter.getD [] =
        [("company", .object acmeFilter),
          ("name", .object [("contains", .string "acme"), ("mode", .string "insensitive")])] ∧
      (sanitize .staff (some "company[name][contains]=acme")).getD [] =
        [("company", .object acmeFilter)] ∧
      compiled.filter.getD [] ≠
        (sanitize .staff (some "company[name][contains]=acme")).getD [] := by
  have hinputs : (restoreViews .staff (some "company[name][contains]=acme")).map
      ConditionView.toInput = (acmeRows (some "company")).map Condition.toInput := by
    rw [restoreViews, restoreQuery_acme, Resolver.eval, views_toInput]
  have hrun : Intake.run (fields .staff) (rowsOfInputs (fields .staff)
      ((acmeRows (some "company")).map Condition.toInput)) = .ok (acmeRows none) := rfl
  have hposted : compileRows (acmeRows none) = [("company", .object acmeFilter),
      ("name", .object [("contains", .string "acme"), ("mode", .string "insensitive")])] := by
    rw [compileRows_eq, acmeRows, List.filterMap_cons_some fragment?_acmeCompany]
    unfold fragment? fragmentWith?
    rfl
  have hkept : compileRows (acmeRows (some "company")) = [("company", .object acmeFilter)] := by
    rw [compileRows_eq, acmeRows, List.filterMap_cons_some fragment?_acmeCompany]
    unfold fragment? fragmentWith?
    rfl
  rw [hinputs]
  refine ⟨_, compileInputs_eq hrun, ?_, ?_, ?_⟩
  · rw [getD_compile, hposted]
  · rw [sanitize, getD_compile, restoreQuery_acme, hkept]
  · rw [sanitize, getD_compile, getD_compile, restoreQuery_acme, hkept, hposted]
    exact fun heq => absurd (congrArg List.length heq) (by decide)

end Service

end QueryFilter
