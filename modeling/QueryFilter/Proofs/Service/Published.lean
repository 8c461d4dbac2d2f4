import QueryFilter.Proofs.Filter.Operands
import QueryFilter.Proofs.Service.InScope

/-!
# Filters and the query strings published with them

The filter of rows leaves the service together with a query string, and a listing sends its filter
as one, with page and limit beside it.  The query string says the same as the filter if and only if
all operands of the filter last (`says_iff_operandsLast`): a null, an empty list or an empty key
within an operand cannot be told in bracket notation.
-/

namespace QueryFilter

open Catalog Compile

/-- A query string says the same as a filter: each operand is read from it at its path, spelled
out. -/
def Says (query : String) (filter : Object) : Prop :=
  ∀ path operand, OperandAt filter path operand →
    Json.at? path (.object ((Query.deserialize query).getD [])) = some operand.spelled

namespace Service

/-! ### Query strings of filters -/

/-- What is read from the query string of compiled rows is read from that of their filter, no filter
counting as an empty one. -/
theorem deserialize_compile (rows : List (Condition Scope)) :
    (Query.deserialize (((compile rows).map fun filter =>
        Query.serialize .standard "" (.object filter)).getD "")).getD [] =
      Query.reread (compileRows rows) := by
  cases rows with
  | nil =>
    rw [compileRows_nil]
    rfl
  | cons row rows =>
    rw [compile_of_ne_nil (List.cons_ne_nil _ _)]
    rfl

/-- Page and limit stand beside the keys of a filter of grounded rows. -/
theorem mem_object {resource : Resource} {rows : List (Condition Scope)}
    (h : Grounded resource rows) (query : ListQuery)
    (hfilter : query.filter.getD [] = compileRows rows) :
    ∀ entry ∈ compileRows rows, entry ∈ query.object := by
  intro entry hentry
  obtain ⟨row, hrow, part, hwrites⟩ :=
    mem_keys_compileRows.1 (Entries.mem_keys_of_mem hentry)
  obtain ⟨scope, field, hreach, hfield, htarget⟩ := h.exists_target hrow hwrites
  obtain ⟨hpage, hlimit⟩ := target_ne_parameter hreach.proper hfield
  rw [htarget] at hpage hlimit
  rw [ListQuery.object, hfilter]
  exact Entries.mem_insert_of_ne (Entries.mem_insert_of_ne hentry hpage _) hlimit _

/-- The object of a query has well-formed keys if its filter has. -/
theorem wellKeyed_object (query : ListQuery) (h : EntriesWellKeyed (query.filter.getD [])) :
    EntriesWellKeyed query.object := by
  have hpage : EntriesWellKeyed
      (Entries.insert (query.filter.getD []) "page" (.ofNat query.page)) :=
    h.alter (by decide) fun _ _ => trivial
  exact hpage.alter (by decide) fun _ _ => trivial

/-- Publication: the query string that is published with the filter of accepted rows, and the one
that a listing sends, say the same as the filter if and only if all its operands last. -/
theorem says_iff_operandsLast (resource : Resource) :
    (∀ inputs compiled, compileInputs resource inputs = .ok compiled →
      (Says compiled.q (compiled.filter.getD []) ↔ OperandsLast (compiled.filter.getD []))) ∧
    ∀ q page limit,
      (Says (listQuery resource q page limit).queryString
          ((listQuery resource q page limit).filter.getD []) ↔
        OperandsLast ((listQuery resource q page limit).filter.getD [])) := by
  constructor
  · intro inputs compiled hcompiled
    cases hrun : Intake.run (fields resource) (rowsOfInputs (fields resource) inputs) with
    | error fault =>
      simp only [compileInputs, hrun] at hcompiled
      exact absurd hcompiled (by simp)
    | ok rows =>
      have hgrounded := (Intake.rows_grounded (relationDepth - 1) known_fields inputs).run hrun
      rw [compileInputs_eq hrun] at hcompiled
      obtain rfl := Except.ok.inj hcompiled
      rw [Says, deserialize_compile, getD_compile]
      exact reread_operands_iff (fun _ hentry => hentry) hgrounded.wellKeyed
  · intro q page limit
    have hgrounded := restoreQuery_grounded resource q
    have hfilter : (listQuery resource q page limit).filter.getD [] =
        compileRows (restoreQuery resource q) := getD_compile _
    have hkeyed : (∀ path operand, OperandAt (compileRows (restoreQuery resource q)) path operand →
        operand.WellKeyed) → EntriesWellKeyed (listQuery resource q page limit).object :=
      fun hall => wellKeyed_object _ (hfilter ▸ hgrounded.wellKeyed hall)
    rw [hfilter]
    exact reread_operands_iff (mem_object hgrounded _ hfilter) hkeyed

/-! ### Examples -/

/-- What a client sends to ask for staff with some of these skills. -/
def skillsInputs (texts : List String) : List ConditionInput :=
  [⟨none, "skills", "em", .ofStrings texts⟩]

/-- The filter of staff with some of these skills. -/
def skillsFilter (texts : List String) : Object :=
  [("skills", .object [("in", .ofStrings texts)])]

/-- The row on skills is read as a row with its texts. -/
theorem run_skillsInputs (texts : List String) :
    Intake.run (fields .staff) (rowsOfInputs (fields .staff) (skillsInputs texts)) =
      .ok [.row none (.choice .multiSelect "skills" "Habilidades" skills) "em" (.list texts)] := by
  have htexts : (texts.map Json.string).map Json.plainText = texts := by
    rw [List.map_map]
    exact List.map_id' texts
  have hrun : Intake.run (fields .staff) (rowsOfInputs (fields .staff) (skillsInputs texts)) =
      .ok [.row none (.choice .multiSelect "skills" "Habilidades" skills) "em"
        (.list ((texts.map Json.string).map Json.plainText))] := rfl
  rw [hrun, htexts]

/-- It is compiled to the filter on skills, and published as its query string. -/
theorem compileInputs_skills (texts : List String) :
    compileInputs .staff (skillsInputs texts) = .ok ⟨some (skillsFilter texts),
      Query.serialize .standard "" (.object (skillsFilter texts))⟩ := by
  have hspec : (⟨"em", .oneOf, "∈"⟩ : OperatorSpec) ∈
      (Field.choice .multiSelect "skills" "Habilidades" skills : Field Scope).specs := by decide
  have hwrites := fragment?_offered none hspec (.list texts)
  rw [fragmentWith?_scalar rfl] at hwrites
  have hfilter : compile [(Condition.row none (.choice .multiSelect "skills" "Habilidades" skills)
      "em" (.list texts) : Condition Scope)] = some (skillsFilter texts) := by
    rw [compile_of_ne_nil (List.cons_ne_nil _ _), compileRows_eq]
    exact congrArg (fun fragments => some (toFilter (merge fragments)))
      (List.filterMap_cons_some hwrites)
  rw [compileInputs_eq (run_skillsInputs texts), hfilter]
  rfl

/-- The filter has one operand, the list of skills. -/
theorem operandAt_skills {texts : List String} {path : List String} {operand : Json} :
    OperandAt (skillsFilter texts) path operand ↔
      path = ["skills", "in"] ∧ operand = .ofStrings texts := by
  constructor
  · intro h
    cases h with
    | @here _ operator _ hmem _ =>
      have hword : operator.word = "skills" := (Prod.mk.inj (List.mem_singleton.1 hmem)).1
      cases operator <;> exact absurd hword (by decide)
    | inside hmem hinner =>
      obtain ⟨rfl, heq⟩ := Prod.mk.inj (List.mem_singleton.1 hmem)
      obtain rfl := Json.object.inj heq
      cases hinner with
      | here hmem _ =>
        obtain ⟨hword, rfl⟩ := Prod.mk.inj (List.mem_singleton.1 hmem)
        exact ⟨by rw [hword], rfl⟩
      | inside hmem _ =>
        have heq := (Prod.mk.inj (List.mem_singleton.1 hmem)).2
        exact absurd heq (by simp [Json.ofStrings])
  · rintro ⟨rfl, rfl⟩
    have hinner : OperandAt [(Operator.oneOf.word, .ofStrings texts)] [Operator.oneOf.word]
        (.ofStrings texts) := .here List.mem_cons_self fun h => absurd h (by decide)
    exact .inside List.mem_cons_self hinner

/-- A list of one skill lasts, so that the query string says the same as the filter. -/
theorem oneSkill_says :
    compileInputs .staff (skillsInputs ["backend"]) = .ok ⟨some (skillsFilter ["backend"]),
        Query.serialize .standard "" (.object (skillsFilter ["backend"]))⟩ ∧
      OperandsLast (skillsFilter ["backend"]) ∧
      Says (Query.serialize .standard "" (.object (skillsFilter ["backend"])))
        (skillsFilter ["backend"]) := by
  have hcompiled := compileInputs_skills ["backend"]
  have hlast : OperandsLast (skillsFilter ["backend"]) := by
    intro path operand h
    obtain ⟨-, rfl⟩ := operandAt_skills.1 h
    simp [Json.Lasts, Json.ofStrings, Json.WellKeyed, ItemsWellKeyed, Json.Whole, ItemsWhole]
  exact ⟨hcompiled, hlast, ((says_iff_operandsLast .staff).1 _ _ hcompiled).2 hlast⟩

/-- An empty list of skills stands in the filter, but nothing of it in the query string. -/
theorem noSkills_not_says :
    compileInputs .staff (skillsInputs []) = .ok ⟨some (skillsFilter []), ""⟩ ∧
      OperandAt (skillsFilter []) ["skills", "in"] (.array []) ∧
      Query.deserialize "" = none ∧ ¬ Says "" (skillsFilter []) := by
  have hoperand : OperandAt (skillsFilter []) ["skills", "in"] (.array []) :=
    operandAt_skills.2 ⟨rfl, rfl⟩
  refine ⟨compileInputs_skills [], hoperand, Query.deserialize_empty, fun h => ?_⟩
  have hread := h _ _ hoperand
  rw [Query.deserialize_empty] at hread
  exact absurd hread (by simp [Json.at?, Json.entries])

end Service

end QueryFilter
