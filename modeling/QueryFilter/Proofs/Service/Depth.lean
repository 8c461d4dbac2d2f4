import Mathlib.Tactic.TFAE
import QueryFilter.Proofs.Catalog.Trails
import QueryFilter.Proofs.Filter.Rows
import QueryFilter.Proofs.Filter.Scalar
import QueryFilter.Proofs.Service.Return

/-!
# How deep relations are followed

Four recursions follow relations through a schema without end, each with a bound of its own: the
tree of fields that is shown, the intake of rows that a client nests, the walk through a nested
filter, and the search for a name.  Each is described with the levels that are left to it, by
induction on the trail of relations (`shows_iff`, `nested_accepts` and `nested_refused`,
`restored_iff`; `find_name_iff` for the search).

All four end at the same level (`followed_tfae`).  So what is shown can be submitted, and what is
submitted is listed when it is restored.
-/

namespace QueryFilter

open Catalog (Scope fields fieldsOf Known Reaches Trail)
open Restore

/-! ### Rows as data -/

/-- A row as data, with its identity left out. -/
def ConditionInput.toJson (input : ConditionInput) : Json :=
  .object [("field", .string input.field), ("operator", .string input.operator),
    ("value", input.value)]

/-- An input without an identity is read back from its JSON. -/
theorem ConditionInput.ofJson_toJson {input : ConditionInput} (h : input.id = none) :
    ofJson input.toJson = .ok input := by
  obtain ⟨id, field, operator, value⟩ := input
  obtain rfl : id = none := h
  rfl

/-- An input without an identity is read back as the one item of an array. -/
theorem Intake.items_toJson {σ : Type} {input : ConditionInput} (h : input.id = none) :
    (items [input.toJson] : Intake σ (List ConditionInput)) = pure [input] := by
  have hitems : [input.toJson].mapM ConditionInput.ofJson = .ok [input] := by
    rw [List.mapM_cons, ConditionInput.ofJson_toJson h]
    rfl
  rw [items, hitems]

namespace Service

/-! ### The tree of fields -/

section Tree

variable {σ : Type} [Schema σ]

/-- A field and the fields below it, as the schema has them. -/
def viewAfresh : Nat → Field σ → FieldView
  | 0, field => .of field []
  | below + 1, field =>
    if field.isRelation then .of field (field.below.map (viewAfresh below)) else .of field []

/-- A field is shown under its name. -/
theorem name_viewAfresh (depth : Nat) (field : Field σ) :
    (viewAfresh depth field).name = field.name := by
  cases depth with
  | zero => rfl
  | succ depth =>
    rw [viewAfresh]
    split <;> rfl

/-- A scalar field is shown without fields below it. -/
theorem viewAfresh_scalar {field : Field σ} (h : field.isRelation = false) (depth : Nat) :
    viewAfresh depth field = .of field [] := by
  cases depth with
  | zero => rfl
  | succ depth => rw [viewAfresh, h, if_neg Bool.false_ne_true]

/-- A relation is shown with the fields below it, as long as there are levels left. -/
theorem viewAfresh_relation {field : Field σ} (h : field.isRelation = true) (depth : Nat) :
    viewAfresh (depth + 1) field = .of field (field.below.map (viewAfresh depth)) := by
  rw [viewAfresh, if_pos h]

open Lookup in
/-- A field is shown as asking afresh shows it. -/
theorem fieldView_answers {known : Field σ → Prop} (hu : Universe known) {root : List (Field σ)}
    {field : Field σ} (h : known field) (depth : Nat) :
    Answers known root (fieldView depth field) (viewAfresh depth field) := by
  induction depth generalizing field with
  | zero => exact Answers.pure _
  | succ depth ih =>
    rw [fieldView, viewAfresh]
    split
    · apply Answers.bind (Resolver.relationFields_answers hu h)
      apply Answers.bind (Answers.mapM fun sub hsub => ih (hu.below h sub hsub))
      exact Answers.pure _
    · exact Answers.pure _

end Tree

/-- The fields of a resource are shown with two levels of relations below them. -/
theorem fieldTree_eq (resource : Resource) :
    fieldTree resource = (fields resource).map (viewAfresh (relationDepth - 1)) := by
  have hanswers : Lookup.Answers (Known resource) (fields resource)
      ((fields resource).mapM (fieldView (relationDepth - 1)))
      ((fields resource).map (viewAfresh (relationDepth - 1))) :=
    Lookup.Answers.mapM fun field hfield => fieldView_answers (Catalog.universe_known resource)
      (Catalog.known_fields field hfield) (relationDepth - 1)
  exact hanswers.eval

/-- Views show a field at the end of a trail: one of them is that of the first relation, and the
views below it show the field at the end of the rest. -/
inductive Shows : List FieldView → List (Field Scope) → Field Scope → Prop
  | here {views : List FieldView} {field : Field Scope} (h : .of field [] ∈ views) :
      Shows views [] field
  | inside {views inner : List FieldView} {relation field : Field Scope} {path : List (Field Scope)}
      (h : .of relation inner ∈ views) (hrest : Shows inner path field) :
      Shows views (relation :: path) field

/-- Without fields nothing is shown. -/
theorem not_shows_nil {path : List (Field Scope)} {field : Field Scope} :
    ¬ Shows [] path field := by
  rintro (h | ⟨h, -⟩) <;> exact absurd h List.not_mem_nil

section Trails

variable {scope final : Scope} {path : List (Field Scope)} {field : Field Scope}

/-- A field is shown at the end of a trail if there are levels enough for the trail. -/
theorem shows_iff {root : Resource} (hpath : Trail scope path final) (hscope : Reaches root scope)
    (hfield : field ∈ fieldsOf final) (hscalar : field.relation = none) {depth : Nat} :
    Shows ((fieldsOf scope).map (viewAfresh depth)) path field ↔ path.length ≤ depth := by
  induction hpath generalizing depth with
  | here =>
    have htype := Catalog.isRelation_of_none hscope.proper hfield hscalar
    constructor
    · exact fun _ => Nat.zero_le _
    · exact fun _ => .here (List.mem_map.2 ⟨field, hfield, viewAfresh_scalar htype depth⟩)
  | @step scope final first relation path hfirst hrelation hrest ih =>
    have htype := Catalog.isRelation_of_relation hscope.proper hfirst hrelation
    have hbelow : ∀ depth, Shows ((fieldsOf relation.scope).map (viewAfresh depth)) path field ↔
        path.length ≤ depth := fun _ => ih (hscope.step hfirst hrelation) hfield
    constructor
    · intro hshows
      cases hshows with
      | @inside _ inner _ _ _ hmem hinner =>
        obtain ⟨other, hother, hview⟩ := List.mem_map.1 hmem
        have hname : other.name = first.name := by
          rw [← name_viewAfresh depth other, hview]
          rfl
        -- views are told apart by their names, which are unique in a scope
        obtain rfl := Catalog.eq_of_name hother hfirst hname
        cases depth with
        | zero =>
          have hnone : [] = inner := congrArg FieldView.fields hview
          exact absurd (hnone ▸ hinner) not_shows_nil
        | succ depth =>
          rw [viewAfresh_relation htype, Catalog.below_of_relation hrelation] at hview
          have hsame : (fieldsOf relation.scope).map (viewAfresh depth) = inner :=
            congrArg FieldView.fields hview
          rw [← hsame] at hinner
          exact Nat.succ_le_succ ((hbelow depth).1 hinner)
    · intro hlength
      cases depth with
      | zero => exact absurd hlength (Nat.not_succ_le_zero _)
      | succ depth =>
        have hview := viewAfresh_relation htype depth
        rw [Catalog.below_of_relation hrelation] at hview
        exact .inside (List.mem_map.2 ⟨first, hfirst, hview⟩)
          ((hbelow depth).2 (Nat.le_of_succ_le_succ hlength))

/-! ### Nested rows -/

/-- A row on a field as a client nests it: in an array under each relation of a trail.  Fields are
called as the client likes, and any operators are chosen. -/
def nestedInput (call operator : Field Scope → String) (field : Field Scope) (value : Json) :
    List (Field Scope) → ConditionInput
  | [] => ⟨none, call field, operator field, value⟩
  | relation :: path =>
    ⟨none, call relation, operator relation,
      .array [(nestedInput call operator field value path).toJson]⟩

/-- Nested inputs have no identity. -/
theorem id_nestedInput (call operator : Field Scope → String) (field : Field Scope) (value : Json)
    (path : List (Field Scope)) : (nestedInput call operator field value path).id = none := by
  cases path <;> rfl

/-- How the items of an array on a relation are read, with so many levels of relations below. -/
def nestedRows {σ : Type} [Schema σ] :
    Nat → Field σ → List Json → Intake σ (List (Condition σ))
  | 0, field, _ => throw (.nestedTooDeeply field.name)
  | below + 1, field, values => do
    let nested ← Intake.items values
    Intake.rows below (← Resolver.relationFields field) nested

/-- One row alone is read as it is among others. -/
theorem rows_single {σ : Type} [Schema σ] (depth : Nat) (scope : List (Field σ))
    (input : ConditionInput) : Intake.rows depth scope [input] = do
      let row ← Intake.row (nestedRows depth) scope input
      return [row] := by
  have hrows : Intake.rows depth scope [input] =
      [input].mapM (Intake.row (nestedRows depth) scope) := by
    cases depth <;> rfl
  rw [hrows, List.mapM_cons, List.mapM_nil]
  simp only [pure_bind]

section Rows

open Intake Lookup

variable {root : Resource} {call : Field Scope → String}

/-- A field of a scope is the first there with its name and with its target. -/
theorem find?_called (hscope : Reaches root scope) (hfield : field ∈ fieldsOf scope)
    {name : String} (hname : name = field.name ∨ name = field.target) :
    ((fieldsOf scope).find? fun other => other.name == name || other.target == name) =
      some field := by
  cases hfound : (fieldsOf scope).find? fun other =>
      other.name == name || other.target == name with
  | none =>
    have hother := List.find?_eq_none.1 hfound field hfield
    rcases hname with rfl | rfl
    · exact absurd hother (by simp)
    · exact absurd hother (by simp)
  | some other =>
    have hmem := List.mem_of_find?_eq_some hfound
    have hmatch := List.find?_some hfound
    rw [Bool.or_eq_true, beq_iff_eq, beq_iff_eq] at hmatch
    congr 1
    rcases hmatch with hother | hother <;> rcases hname with heq | heq <;> rw [heq] at hother
    · exact Catalog.eq_of_name hmem hfield hother
    · exact (Catalog.eq_of_target_eq_own_name hscope hfield hmem hother.symm).symm
    · exact Catalog.eq_of_target_eq_own_name hscope hmem hfield hother
    · exact Catalog.eq_of_target hscope.proper hmem hfield hother

/-- A field of a scope is found there by its name and by its target. -/
theorem called_accepts (hscope : Reaches root scope) (hfield : field ∈ fieldsOf scope)
    {name : String} (hname : name = field.name ∨ name = field.target) :
    Accepts (Known root) (fields root) (Intake.field (fieldsOf scope) name) field := by
  rw [Intake.field, find?_called hscope hfield hname]
  exact Accepts.pure field

/-- Below a relation stand the fields of the scope that it leads to. -/
theorem relation_answers (hscope : Reaches root scope) (hfield : field ∈ fieldsOf scope)
    {relation : Relation Scope} (hrelation : field.relation = some relation) :
    Answers (Known root) (fields root) (Resolver.relationFields field)
      (fieldsOf relation.scope) := by
  rw [← Catalog.below_of_relation hrelation]
  exact Resolver.relationFields_answers (Catalog.universe_known root) (hscope.known field hfield)

/-- A row alone is accepted with its field and its value. -/
theorem single_accepts {scope : List (Field Scope)} {input : ConditionInput}
    (hfield : Accepts (Known root) (fields root) (Intake.field scope input.field) field)
    {depth : Nat} {value : Value Scope} (hvalue : Accepts (Known root) (fields root)
      (Intake.value (nestedRows depth) field input.value) value) :
    Accepts (Known root) (fields root) (Intake.rows depth scope [input])
      [.row input.id field input.operator value] := by
  rw [rows_single]
  exact Accepts.bind (Accepts.row hfield hvalue) (Accepts.pure _)

/-- A row alone is refused with its value. -/
theorem single_refused {scope : List (Field Scope)} {input : ConditionInput}
    (hfield : Accepts (Known root) (fields root) (Intake.field scope input.field) field)
    {depth : Nat} (hvalue : Ensures (Known root) (fields root)
      (Intake.value (nestedRows depth) field input.value) fun _ => False) :
    Ensures (Known root) (fields root) (Intake.rows depth scope [input]) fun _ => False := by
  rw [rows_single, row_eq]
  refine Ensures.bind ?_ fun _ (hnone : False) => hnone.elim
  refine Ensures.bind hfield.ensures fun found hfound => ?_
  rw [hfound]
  exact Ensures.bind hvalue fun _ hnone => hnone.elim

/-- Nested rows are accepted if there are levels enough for the trail. -/
theorem nested_accepts (hpath : Trail scope path final) (hscope : Reaches root scope)
    (hfield : field ∈ fieldsOf final) (hscalar : field.relation = none)
    (hcall : ∀ field, call field = field.name ∨ call field = field.target)
    (operator : Field Scope → String) (value : Json) {depth : Nat} (hlength : path.length ≤ depth) :
    ∃ rows, Accepts (Known root) (fields root)
      (Intake.rows depth (fieldsOf scope) [nestedInput call operator field value path]) rows := by
  induction hpath generalizing depth with
  | @here scope =>
    have htype := Catalog.isRelation_of_none hscope.proper hfield hscalar
    have hvalue : Accepts (Known root) (fields root)
        (Intake.value (nestedRows depth) field value) (.ofJson value) := by
      rw [value_scalar htype]
      exact Accepts.pure _
    exact ⟨_, single_accepts (called_accepts hscope hfield (hcall field)) hvalue⟩
  | @step scope final first relation path hfirst hrelation hrest ih =>
    -- each step of the trail takes one level
    cases depth with
    | zero => exact absurd hlength (Nat.not_succ_le_zero _)
    | succ depth =>
      obtain ⟨rows, hrows⟩ := ih (hscope.step hfirst hrelation) hfield
        (Nat.le_of_succ_le_succ hlength)
      have hfields := relation_answers hscope hfirst hrelation
      have hnested : Accepts (Known root) (fields root) (nestedRows (depth + 1) first
          [(nestedInput call operator field value path).toJson]) rows := by
        rw [nestedRows, items_toJson (id_nestedInput _ _ _ _ _)]
        exact Accepts.bind (Accepts.pure _) (Accepts.bind (Accepts.lift hfields) hrows)
      have hvalue : Accepts (Known root) (fields root) (Intake.value (nestedRows (depth + 1)) first
          (.array [(nestedInput call operator field value path).toJson]))
            (.conditions rows) := by
        rw [value_items (Catalog.isRelation_of_relation hscope.proper hfirst hrelation)]
        exact Accepts.bind hnested (Accepts.pure _)
      exact ⟨_, single_accepts (called_accepts hscope hfirst (hcall first)) hvalue⟩

/-- Nested rows are refused if the levels end before the trail. -/
theorem nested_refused (hpath : Trail scope path final) (hscope : Reaches root scope)
    (hcall : ∀ field, call field = field.name ∨ call field = field.target)
    (operator : Field Scope → String) (value : Json) {depth : Nat} (hlength : depth < path.length) :
    Ensures (Known root) (fields root)
      (Intake.rows depth (fieldsOf scope) [nestedInput call operator field value path])
      fun _ => False := by
  induction hpath generalizing depth with
  | here => exact absurd hlength (Nat.not_lt_zero _)
  | @step scope final first relation path hfirst hrelation hrest ih =>
    have hnested : Ensures (Known root) (fields root) (nestedRows depth first
        [(nestedInput call operator field value path).toJson]) fun _ => False := by
      cases depth with
      | zero => exact Ensures.throw _ _
      | succ depth =>
        have hfields := relation_answers hscope hfirst hrelation
        rw [nestedRows, items_toJson (id_nestedInput _ _ _ _ _), pure_bind]
        refine Ensures.bind (Ensures.lift hfields) fun below hbelow => ?_
        rw [hbelow]
        exact ih (hscope.step hfirst hrelation) (Nat.lt_of_succ_lt_succ hlength)
    have hvalue : Ensures (Known root) (fields root) (Intake.value (nestedRows depth) first
        (.array [(nestedInput call operator field value path).toJson]))
          fun _ => False := by
      rw [value_items (Catalog.isRelation_of_relation hscope.proper hfirst hrelation)]
      exact Ensures.bind hnested fun _ hnone => hnone.elim
    exact single_refused (called_accepts hscope hfirst (hcall first)) hvalue

/-- The service compiles nested rows if and only if their trail is short. -/
theorem nested_compiles_iff (hpath : Trail (.root root) path final)
    (hfield : field ∈ fieldsOf final) (hscalar : field.relation = none)
    (hcall : ∀ field, call field = field.name ∨ call field = field.target)
    (operator : Field Scope → String) (value : Json) :
    (∃ compiled, compileInputs root [nestedInput call operator field value path] = .ok compiled) ↔
      path.length < relationDepth := by
  constructor
  · rintro ⟨compiled, hcompiled⟩
    by_contra hlong
    have hrefused : Ensures (Known root) (fields root)
        (rowsOfInputs (fields root) [nestedInput call operator field value path])
        fun _ => False :=
      nested_refused hpath .start hcall operator value (Nat.le_of_not_lt hlong)
    cases hrun : Intake.run (fields root)
        (rowsOfInputs (fields root) [nestedInput call operator field value path]) with
    | ok rows => exact hrefused.run hrun
    | error fault =>
      simp only [compileInputs, hrun] at hcompiled
      exact absurd hcompiled (by simp [bind, Except.bind])
  · intro hlength
    obtain ⟨rows, hrows⟩ := nested_accepts hpath .start hfield hscalar hcall operator value
      (Nat.le_of_lt_succ hlength)
    exact ⟨_, compileInputs_eq hrows.run⟩

end Rows

/-! ### Nested filters -/

/-- A filter as it stands at a relation: under `some` if there are many items. -/
def enclosed (relation : Field Scope) (inner : Object) : Object :=
  match relation.kind? with
  | some .toMany => Compile.single .someRelated (.object inner)
  | some .toOne | none => inner

/-- The filter with an operator on a field, inside the filters of the relations of a trail. -/
def nestedFilter (field : Field Scope) (operator : Operator) (operand : Json) :
    List (Field Scope) → Object
  | [] => [(field.target, .object (Compile.single operator operand))]
  | relation :: path =>
    [(relation.target, .object (enclosed relation (nestedFilter field operator operand path)))]

/-- A nested filter is no filter of operators between a relation and its items. -/
theorem get?_nestedFilter (hpath : Trail scope path final) (h : scope.Proper)
    (hfield : field ∈ fieldsOf final) (operator : Operator) (operand : Json) {other : Operator}
    (hother : other.isRelation = true) :
    Entries.get? (nestedFilter field operator operand path) other.word = none := by
  cases hpath with
  | here =>
    rw [nestedFilter, Entries.get?_cons, if_neg (Catalog.target_ne_word h hfield hother),
      Entries.get?_nil]
  | step hfirst _ _ =>
    rw [nestedFilter, Entries.get?_cons, if_neg (Catalog.target_ne_word h hfirst hother),
      Entries.get?_nil]

/-- At a relation the filter inside it is read. -/
theorem innerFilters_enclosed {first : Field Scope} {relation : Relation Scope}
    (hrelation : first.relation = some relation) {inner : Object}
    (h : ∀ operator : Operator, operator.isRelation = true →
      Entries.get? inner operator.word = none) :
    ∃ operator label, innerFilters first (enclosed first inner) = [(operator, inner)] ∧
      FieldType.relation.label? operator = some label := by
  have hkind := kind?_eq_some hrelation
  unfold enclosed
  cases hk : relation.kind with
  | toOne =>
    rw [hk] at hkind
    rw [hkind]
    exact ⟨.related, "possui", innerFilters_implicit hkind h, by decide⟩
  | toMany =>
    rw [hk] at hkind
    rw [hkind]
    exact ⟨.someRelated, "algum", innerFilters_single (by decide) first inner, by decide⟩

/-- One key is restored from the field of its target. -/
theorem rowsAfresh_target (h : scope.Proper) (hfield : field ∈ fieldsOf scope)
    (root : List (Field Scope)) (depth : Nat) (parent : Option String) (value : Json) :
    rowsAfresh root (depth + 1) (fieldsOf scope) parent [(field.target, value)] =
      fieldRowsAfresh (rowsAfresh root depth field.below) field parent
        (pathOf parent field.target) value := by
  rw [rowsAfresh, List.flatMap_cons, List.flatMap_nil, List.append_nil]
  simp only [Catalog.lookup_target h hfield]

/-- The parent of rows at the end of a trail: the path of its last relation. -/
theorem parent_cons (first : Field Scope) (path : List (Field Scope)) (parent : Option String) :
    ((first :: path).getLast?.map Field.name).or parent =
      (path.getLast?.map Field.name).or (some first.name) := by
  rw [List.getLast?_cons]
  cases path.getLast? <;> rfl

/-- A row on a field at the end of a trail is restored from the filter that nests it if and only if
the levels reach beyond the trail. -/
theorem restored_iff {root : Resource} (hpath : Trail scope path final)
    (hscope : Reaches root scope) (hfield : field ∈ fieldsOf final)
    (hscalar : field.relation = none) {spec : OperatorSpec} (hspec : spec ∈ field.specs)
    (operand : Json) (parent : Option String)
    (hparent : ∀ key, pathOf parent key = scope.path ++ key) (depth : Nat) :
    (∃ row ∈ rowsAfresh (fields root) depth (fieldsOf scope) parent
        (nestedFilter field spec.operator operand path),
      row.field? = some field ∧ row.parent = (path.getLast?.map Field.name).or parent) ↔
        path.length < depth := by
  induction hpath generalizing parent depth with
  | @here scope =>
    cases depth with
    | zero => simp [rowsAfresh]
    | succ depth =>
      have htype := Catalog.isRelation_of_none hscope.proper hfield hscalar
      have hrows : rowsAfresh (fields root) (depth + 1) (fieldsOf scope) parent
          (nestedFilter field spec.operator operand []) =
            [rowOf field parent spec.label (valueOf field.type spec.operator operand)] := by
        rw [nestedFilter, rowsAfresh_target hscope.proper hfield, fieldRowsAfresh, htype,
          if_neg Bool.false_ne_true, headRows_scalar htype, Compile.single,
          scalarRows_single (Field.mem_specs_of_mem hspec)]
        rfl
      refine iff_of_true ⟨_, hrows ▸ List.mem_cons_self, rfl, rfl⟩ (Nat.succ_pos _)
  | @step scope final first relation path hfirst hrelation hrest ih =>
    cases depth with
    | zero => simp [rowsAfresh]
    | succ depth =>
      have hproper := hscope.proper
      have hreach := hscope.step hfirst hrelation
      have htype := Catalog.isRelation_of_relation hproper hfirst hrelation
      have hname : pathOf parent first.target = first.name := by
        rw [hparent, Catalog.name_of_relation hproper hfirst hrelation]
      have hinside : ∀ key, pathOf (some first.name) key = relation.scope.path ++ key := by
        intro key
        rw [pathOf, Catalog.path_of_relation hfirst hrelation]
      have hbelow := ih hreach hfield (some first.name) hinside depth
      obtain ⟨operator, label, hinner, hlabel⟩ := innerFilters_enclosed hrelation
        fun other hother =>
          get?_nestedFilter hrest hreach.proper hfield spec.operator operand hother
      -- the row of the relation, and behind it the rows of the filter inside
      have hrows : rowsAfresh (fields root) (depth + 1) (fieldsOf scope) parent
          (nestedFilter field spec.operator operand (first :: path)) =
            rowOf first parent label (.filter (nestedFilter field spec.operator operand path)) ::
            rowsAfresh (fields root) depth (fieldsOf relation.scope) (some first.name)
              (nestedFilter field spec.operator operand path) := by
        rw [nestedFilter, rowsAfresh_target hproper hfirst, fieldRowsAfresh, if_pos htype]
        simp only [hinner]
        rw [List.flatMap_cons, List.flatMap_nil, List.append_nil, innerRowsAfresh, innerRow?,
          hlabel, Option.map_some, hname, Catalog.below_of_relation hrelation]
      rw [hrows, parent_cons, List.length_cons, Nat.succ_lt_succ_iff, ← hbelow]
      constructor
      · rintro ⟨row, hrow, hrowField, hrowParent⟩
        rcases List.mem_cons.1 hrow with rfl | hrow
        · obtain rfl : first = field := Option.some.inj hrowField
          rw [hscalar] at hrelation
          exact absurd hrelation (by simp)
        · exact ⟨row, hrow, hrowField, hrowParent⟩
      · rintro ⟨row, hrow, hrest⟩
        exact ⟨row, List.mem_cons_of_mem _ hrow, hrest⟩

/-- The filter that nests a row on a field is restored with this row if and only if the trail is
short. -/
theorem nested_restored_iff {root : Resource} (hpath : Trail (.root root) path final)
    (hfield : field ∈ fieldsOf final) (hscalar : field.relation = none) {spec : OperatorSpec}
    (hspec : spec ∈ field.specs) (operand : Json) :
    (∃ row ∈ restore (fields root) (nestedFilter field spec.operator operand path),
      row.field? = some field ∧ row.parent = path.getLast?.map Field.name) ↔
        path.length < relationDepth := by
  have hrestored := restored_iff hpath .start hfield hscalar hspec operand none
    (fun key => String.empty_append.symm) relationDepth
  rw [Option.or_none] at hrestored
  rw [restore_eq (Catalog.universe_known root) Catalog.known_fields]
  exact hrestored

/-! ### One depth -/

/-- One depth: for a field without relation at the end of a trail of relations from a resource, it
is the same that the trail has two relations at most, that the field is shown there, that a row on
it is compiled when it is nested so deep, that such a row is restored from a filter that nests it so
deep, and that the field is found by its name. -/
theorem followed_tfae {root : Resource} (hpath : Trail (.root root) path final)
    (hfield : field ∈ fieldsOf final) (hscalar : field.relation = none)
    (call : Field Scope → String)
    (hcall : ∀ field, call field = field.name ∨ call field = field.target)
    (label : Field Scope → String) (value : Json) {spec : OperatorSpec}
    (hspec : spec ∈ field.specs) (operand : Json) (key : String) :
    [path.length ≤ 2,
      Shows (fieldTree root) path field,
      ∃ compiled, compileInputs root [nestedInput call label field value path] = .ok compiled,
      ∃ row ∈ restore (fields root) (nestedFilter field spec.operator operand path),
        row.field? = some field ∧ row.parent = path.getLast?.map Field.name,
      Resolver.eval (fields root) (Resolver.find [] key field.name) = some field].TFAE := by
  have hdepth : path.length < relationDepth ↔ path.length ≤ 2 := Nat.lt_succ_iff
  tfae_have 1 ↔ 2 := by
    rw [fieldTree_eq]
    exact (shows_iff hpath .start hfield hscalar).symm
  tfae_have 3 ↔ 1 := (nested_compiles_iff hpath hfield hscalar hcall label value).trans hdepth
  tfae_have 4 ↔ 1 := (nested_restored_iff hpath hfield hscalar hspec operand).trans hdepth
  tfae_have 5 ↔ 1 := (Catalog.find_name_iff hpath hfield key).trans hdepth
  tfae_finish

end Trails

/-! ### An example -/

/-- From staff to the staff of their company. -/
def toColleagues : List (Field Scope) :=
  [Catalog.companyField,
    .related .toMany "company__staff" "Funcionários" ⟨.staff, "company__staff__"⟩]

/-- The name of staff of the company. -/
def colleagueName : Field Scope :=
  .scalar .text "company__staff__name" "Nome"

/-- Staff lead to their colleagues by way of the company. -/
theorem trail_toColleagues :
    Trail (.root .staff) toColleagues ⟨.staff, "company__staff__"⟩ :=
  .step Catalog.companyField_mem rfl (.step Catalog.colleaguesField_mem rfl (.here _))

/-- The name of staff of the company is two relations away from staff: it is shown, it can be
submitted, and it is restored. -/
theorem colleagueName_followed :
    Shows (fieldTree .staff) toColleagues colleagueName ∧
    (∃ compiled, compileInputs .staff [nestedInput Field.target (fun _ => "contém") colleagueName
      (.string "ana") toColleagues] = .ok compiled) ∧
    ∃ row ∈ restore (fields .staff)
        (nestedFilter colleagueName .contains (.string "ana") toColleagues),
      row.field? = some colleagueName ∧ row.parent = some "company__staff" := by
  have hfield : colleagueName ∈ fieldsOf ⟨.staff, "company__staff__"⟩ := List.mem_cons_self
  have hspec : (⟨"contém", .contains, "⊃"⟩ : OperatorSpec) ∈ colleagueName.specs := by decide
  have hall := followed_tfae trail_toColleagues hfield rfl Field.target (fun _ => .inr rfl)
    (fun _ => "contém") (.string "ana") hspec (.string "ana") ""
  have hshort : toColleagues.length ≤ 2 := by decide
  exact ⟨(hall.out 0 1).1 hshort, (hall.out 0 2).1 hshort, (hall.out 0 3).1 hshort⟩

end Service

end QueryFilter
