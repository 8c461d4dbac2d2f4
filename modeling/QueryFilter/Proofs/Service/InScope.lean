import QueryFilter.Proofs.Filter.InScope
import QueryFilter.Proofs.Filter.RoundTrip
import QueryFilter.Proofs.Service.Return

/-!
# Filters that leave the service

Whatever a client sends, the rows that are accepted are grounded (`rows_grounded`), as are the rows
of a query string.  So a filter leaves the service in scope if and only if the rows behind it are at
home (`inScope_iff_rowsAtHome`).
-/

namespace QueryFilter

open Catalog Compile Restore

/-! ### Accepted rows -/

namespace Intake

variable {root : Resource}

/-- A name is looked up among the fields that the resource reaches. -/
theorem field_known {scope : List (Field Scope)} (hscope : ∀ field ∈ scope, Known root field)
    (name : String) :
    Ensures (Known root) (fields root) (Intake.field scope name) (Known root) := by
  unfold Intake.field
  cases hfind : scope.find? fun field => field.name == name || field.target == name with
  | some field => exact Ensures.pure (hscope field (List.mem_of_find?_eq_some hfind))
  | none =>
    have hanswers := Resolver.find_answers (universe_known root) known_fields scope name name
    apply Ensures.bind (Ensures.lift hanswers)
    rintro _ rfl
    cases hlookup : lookup (fields root) scope name name with
    | none => exact Ensures.throw _ _
    | some field =>
      apply Ensures.pure
      exact (universe_known root).known_of_lookup known_fields hscope hlookup

/-- A value keeps a filter, or it holds rows that were accepted below the field. -/
theorem value_grounded {nested : Field Scope → List Json → Intake Scope (List (Condition Scope))}
    {field : Field Scope} (hfield : Known root field)
    (hnested : ∀ items, Ensures (Known root) (fields root) (nested field items) (Grounded root))
    (json : Json) :
    Ensures (Known root) (fields root) (value nested field json) fun value =>
      ∀ inner, content? field value = some (.rows inner) → Grounded root inner := by
  have hkept : ∀ inner, content? field (Value.ofJson json) = some (.rows inner) →
      Grounded root inner := by
    refine fun inner => grounded_of_content? hfield fun rows => ?_
    cases json <;> simp [Value.ofJson, Value.blank]
  unfold value
  split
  · split
    · refine Ensures.bind (hnested _) fun rows hrows => Ensures.pure fun inner hcontent => ?_
      rw [eq_of_content?_conditions hcontent]
      exact hrows
    · exact Ensures.pure hkept
  · exact Ensures.pure hkept

/-- A row is on a field that the resource reaches, and the rows that it holds are grounded. -/
theorem row_grounded {nested : Field Scope → List Json → Intake Scope (List (Condition Scope))}
    {scope : List (Field Scope)} (hscope : ∀ field ∈ scope, Known root field)
    (hnested : ∀ field, Known root field → ∀ items,
      Ensures (Known root) (fields root) (nested field items) (Grounded root))
    (input : ConditionInput) :
    Ensures (Known root) (fields root) (row nested scope input) fun row =>
      (∀ field, row.field? = some field → Known root field) ∧
        ∀ inner, row.Holds inner → Grounded root inner := by
  rw [row_eq]
  refine Ensures.bind (field_known hscope input.field) fun field hfield => ?_
  apply Ensures.bind (value_grounded hfield (hnested field hfield) input.value)
  intro value hvalue
  refine Ensures.pure ⟨?_, ?_⟩
  · rintro other hother
    rw [← Option.some.inj hother]
    exact hfield
  · rintro inner ⟨other, hother, hcontent⟩
    obtain rfl : field = other := Option.some.inj hother
    exact hvalue inner hcontent

/-- Inputs that are accepted are read as grounded rows, if nested ones are. -/
theorem mapM_row_grounded
    {nested : Field Scope → List Json → Intake Scope (List (Condition Scope))}
    {scope : List (Field Scope)} (hscope : ∀ field ∈ scope, Known root field)
    (hnested : ∀ field, Known root field → ∀ items,
      Ensures (Known root) (fields root) (nested field items) (Grounded root))
    (inputs : List ConditionInput) :
    Ensures (Known root) (fields root) (inputs.mapM (row nested scope)) (Grounded root) := by
  refine Ensures.mono (Ensures.mapM fun input _ => row_grounded hscope hnested input) ?_
  exact fun rows h => .rows (fun row hrow _ => (h row hrow).1) fun row hrow _ => (h row hrow).2

/-- Reading items leaves a resolver faithful. -/
theorem items_ensures (values : List Json) :
    Ensures (Known root) (fields root) (items (σ := Scope) values) fun _ => True := by
  unfold items
  split
  · exact Ensures.pure trivial
  · exact Ensures.throw _ _

/-- Accepted rows are grounded, at every level. -/
theorem rows_grounded (below : Nat) {scope : List (Field Scope)}
    (hscope : ∀ field ∈ scope, Known root field) (inputs : List ConditionInput) :
    Ensures (Known root) (fields root) (rows below scope inputs) (Grounded root) := by
  induction below generalizing scope inputs with
  | zero => exact mapM_row_grounded hscope (fun field _ items => Ensures.throw _ _) inputs
  | succ below ih =>
    refine mapM_row_grounded hscope (fun field hfield values => ?_) inputs
    refine Ensures.bind (items_ensures values) fun nested _ => ?_
    have hbelow : Lookup.Answers (Known root) (fields root) (Resolver.relationFields field)
        field.below := Resolver.relationFields_answers (universe_known root) hfield
    apply Ensures.bind (Ensures.lift hbelow)
    rintro _ rfl
    exact ih ((universe_known root).below hfield) nested

end Intake

/-! ### Filters of the service -/

namespace Service

/-- The rows of a query string are grounded. -/
theorem restoreQuery_grounded (resource : Resource) (q : Option String) :
    Grounded resource (restoreQuery resource q) := by
  rw [restoreQuery_eq]
  exact grounded_restore .start _

/-- Scope: the filter of a query string, and every filter of rows that a client sent, is in scope if
and only if the rows behind it are at home.  A row on a field from elsewhere is not dropped: it
writes at the target of its field in the scope in which it stands. -/
theorem inScope_iff_rowsAtHome (resource : Resource) :
    (∀ q, InScope (.root resource) ((sanitize resource q).getD []) ↔
      RowsAtHome (.root resource) (restoreQuery resource q)) ∧
    ∀ inputs compiled, compileInputs resource inputs = .ok compiled →
      ∃ rows, Intake.run (fields resource) (rowsOfInputs (fields resource) inputs) = .ok rows ∧
        (InScope (.root resource) (compiled.filter.getD []) ↔
          RowsAtHome (.root resource) rows) := by
  constructor
  · intro q
    rw [sanitize, getD_compile]
    exact inScope_compileRows_iff .start (restoreQuery_grounded resource q)
  · intro inputs compiled hcompiled
    cases hrun : Intake.run (fields resource) (rowsOfInputs (fields resource) inputs) with
    | error fault =>
      simp only [compileInputs, hrun] at hcompiled
      exact absurd hcompiled (by simp)
    | ok rows =>
      rw [compileInputs_eq hrun] at hcompiled
      obtain rfl := Except.ok.inj hcompiled
      refine ⟨rows, rfl, ?_⟩
      rw [getD_compile]
      exact inScope_compileRows_iff .start
        ((Intake.rows_grounded (relationDepth - 1) known_fields inputs).run hrun)

/-! ### Examples -/

/-- What a client sends for the sample rows. -/
def sampleInputs : List ConditionInput :=
  [⟨none, "age", "maior que", .string "18"⟩,
    ⟨none, "company", "possui", .array [.object [("field", .string "company__name"),
      ("operator", .string "contém"), ("value", .string "acme")]]⟩]

/-- The sample inputs are read as the sample rows. -/
theorem run_sampleInputs :
    Intake.run (fields .staff) (rowsOfInputs (fields .staff) sampleInputs) = .ok sampleRows := rfl

/-- The sample rows are at home, so that their filter is in scope. -/
theorem sampleInputs_inScope :
    ∃ compiled, compileInputs .staff sampleInputs = .ok compiled ∧
      RowsAtHome (.root .staff) sampleRows ∧
      InScope (.root .staff) (compiled.filter.getD []) := by
  have hcompiled := compileInputs_eq run_sampleInputs
  have hhome := edited_sampleRows.rowsAtHome .start
  obtain ⟨rows, hrun, hscope⟩ := (inScope_iff_rowsAtHome .staff).2 sampleInputs _ hcompiled
  rw [run_sampleInputs] at hrun
  obtain rfl := Except.ok.inj hrun
  exact ⟨_, hcompiled, hhome, hscope.2 hhome⟩

/-- The restored row that the document is `x`. -/
def documentRows : List (Condition Scope) :=
  [rowOf (.scalar .text "company__document" "CNPJ") none "igual a" (.text "x")]

/-- The key `document`, which staff do not have, is read as that of the company. -/
theorem restoreQuery_document :
    restoreQuery .staff (some "document[equals]=x") = documentRows := by
  have hkeyed : EntriesWellKeyed [("document", .object [("equals", .string "x")])] := by
    simp [EntriesWellKeyed, Json.WellKeyed]
  have hquery : Query.serialize .standard ""
      (.object [("document", .object [("equals", .string "x")])]) = "document[equals]=x" := rfl
  rw [← hquery, restoreQuery_serialize .staff hkeyed (List.cons_ne_nil _ _)]
  rfl

/-- It is written as a document of staff. -/
theorem compileRows_document : compileRows documentRows =
    [("document", .object [("equals", .string "x"), ("mode", .string "insensitive")])] := by
  rw [compileRows_eq]
  unfold fragment? fragmentWith?
  rfl

/-- Only companies have a document, but the filter of staff asks for one. -/
theorem document_not_inScope :
    sanitize .staff (some "document[equals]=x") =
      some [("document", .object [("equals", .string "x"), ("mode", .string "insensitive")])] ∧
    ¬ InScope (.root .staff) ((sanitize .staff (some "document[equals]=x")).getD []) := by
  have hfilter : sanitize .staff (some "document[equals]=x") =
      some [("document", .object [("equals", .string "x"), ("mode", .string "insensitive")])] := by
    rw [sanitize, restoreQuery_document, ← compileRows_document]
    rfl
  refine ⟨hfilter, ?_⟩
  rw [hfilter]
  intro h
  obtain ⟨field, hfield, htarget⟩ := (h _ List.mem_cons_self).exists_field
  have hdata : ∀ field ∈ fieldsOf (.root .staff), field.target ≠ "document" := by decide
  exact hdata field hfield htarget

end Service

end QueryFilter
