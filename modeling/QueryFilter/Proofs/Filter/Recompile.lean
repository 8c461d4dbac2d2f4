import QueryFilter.Proofs.Filter.Choices
import QueryFilter.Proofs.Filter.Rows
import QueryFilter.Proofs.Json.Same

/-!
# Compiling a restored filter

What rows write at a target comes from the rows on the field of this target alone
(`fragmentsAt_eq`), and the rows restored from the operators at a target are all on its field.  So a
filter that is restored and compiled again says the same if and only if the operators at each of its
targets do (`same_recompiled_iff`).
-/

namespace QueryFilter

open Catalog Compile Restore

variable {σ : Type}

/-- Whether a row writes at a target. -/
def Condition.isAt (target : String) (row : Condition σ) : Bool :=
  row.field?.map Field.target == some target

/-- The operators that a row writes. -/
def Compile.part? [Schema σ] (row : Condition σ) : Option Object :=
  (fragment? row).map Prod.snd

/-! ### Rows at one target -/

section Parts

variable [Schema σ]

/-- A row on a field writes at the target of the field. -/
theorem fragment?_eq_part? {row : Condition σ} {field : Field σ} (h : row.field? = some field) :
    fragment? row = (part? row).map fun part => (field.target, part) := by
  unfold part? fragment? counted?
  split
  · rfl
  · rw [h, Option.bind_some]
    cases field.type.operator? row.operator with
    | none => rfl
    | some operator =>
      rw [Option.map_some, Option.bind_some]
      simp only [Option.map_map]
      rfl

/-- A row that writes has no parent. -/
theorem parent_of_part? {row : Condition σ} {part : Object} (h : part? row = some part) :
    row.parent = none := by
  refine Decidable.byContradiction fun hne => ?_
  rw [part?, fragment?_of_parent hne] at h
  exact absurd h (by simp)

/-- A row without a field writes nothing. -/
theorem fragment?_of_labelOnly {row : Condition σ} (h : row.field? = none) :
    fragment? row = none := by
  unfold fragment? counted?
  split
  · rfl
  · rw [h]
    rfl

/-- A row that writes has no parent, and writes at the target of its field. -/
theorem exists_field_of_fragment? {row : Condition σ} {target : String} {part : Object}
    (h : fragment? row = some (target, part)) :
    row.parent = none ∧ ∃ field, row.field? = some field ∧ field.target = target := by
  constructor
  · refine Decidable.byContradiction fun hne => ?_
    rw [fragment?_of_parent hne] at h
    exact absurd h (by simp)
  · cases hfield : row.field? with
    | none =>
      rw [fragment?_of_labelOnly hfield] at h
      exact absurd h (by simp)
    | some field =>
      rw [fragment?_eq_part? hfield, Option.map_eq_some_iff] at h
      obtain ⟨_, -, heq⟩ := h
      exact ⟨field, rfl, (Prod.mk.inj heq).1⟩

/-- What stands at a target was written by the rows on its field. -/
theorem fragmentsAt_eq (target : String) (rows : List (Condition σ)) :
    fragmentsAt target (rows.filterMap fragment?) =
      (rows.filter (Condition.isAt target)).filterMap part? := by
  induction rows with
  | nil => rfl
  | cons row rows ih =>
    cases hfield : row.field? with
    | none =>
      have hskip : row.isAt target = false := by simp [Condition.isAt, hfield]
      rw [List.filterMap_cons_none (fragment?_of_labelOnly hfield), ih,
        List.filter_cons_of_neg (by simp [hskip])]
    | some field =>
      have hwrites := fragment?_eq_part? hfield
      by_cases htarget : field.target = target
      · have hat : row.isAt target = true := by simp [Condition.isAt, hfield, htarget]
        rw [List.filter_cons_of_pos hat]
        cases hpart : part? row with
        | none =>
          rw [hpart, Option.map_none] at hwrites
          rw [List.filterMap_cons_none hwrites, List.filterMap_cons_none hpart, ih]
        | some part =>
          rw [hpart, Option.map_some] at hwrites
          rw [List.filterMap_cons_some hwrites, List.filterMap_cons_some hpart, ← ih]
          simp [fragmentsAt, htarget]
      · have hskip : row.isAt target = false := by simp [Condition.isAt, hfield, htarget]
        rw [List.filter_cons_of_neg (by simp [hskip]), ← ih]
        cases hpart : part? row with
        | none =>
          rw [hpart, Option.map_none] at hwrites
          rw [List.filterMap_cons_none hwrites]
        | some part =>
          rw [hpart, Option.map_some] at hwrites
          rw [List.filterMap_cons_some hwrites]
          simp [fragmentsAt, htarget]

/-- A target is a key of the filter exactly if some row at this target writes something. -/
theorem mem_keys_compileRows_iff {rows : List (Condition σ)} {target : String} :
    target ∈ Entries.keys (compileRows rows) ↔
      (rows.filter (Condition.isAt target)).filterMap part? ≠ [] := by
  rw [← fragmentsAt_eq, ne_eq, fragmentsAt_eq_nil, not_not, compileRows_eq, keys_toFilter,
    mem_keys_merge]

/-- The operators that rows write on a field. -/
def Compile.operatorsOn (field : Field σ) (rows : List (Condition σ)) : Object :=
  united ((rows.filter (Condition.isAt field.target)).filterMap part?)

/-- At the target of a field stand the operators that the rows on it write together. -/
theorem get?_compileRows_target {rows : List (Condition σ)} {field : Field σ}
    (h : field.target ∈ Entries.keys (compileRows rows)) :
    Entries.get? (compileRows rows) field.target = some (.object (operatorsOn field rows)) := by
  rw [get?_compileRows h, fragmentsAt_eq]
  rfl

end Parts

/-! ### Filters that are restored -/

/-- The rows of a field stand at its target. -/
theorem isAt_of_mem_headRows {field : Field σ} {value : Json} {row : Condition σ}
    (h : row ∈ headRows field none value) (target : String) :
    row.isAt target = (field.target == target) := by
  rw [Condition.isAt, Condition.field?_eq_some.2 (subject_of_mem_headRows h)]
  rfl

/-- The filter of the rows that are restored from a filter. -/
def Compile.recompiled [Schema σ] (scope : σ) (filter : Object) : Object :=
  compileRows (restore (Schema.fields scope) filter)

/-- The operators of the rows that are restored from the operators of a field. -/
def Compile.operatorsAgain [Schema σ] (field : Field σ) (operators : Object) : Object :=
  united ((headRows field none (.object operators)).filterMap part?)

section Recompiled

variable {root : Resource} {scope : Scope} {filter : Object}

/-- A filter is compiled again key by key. -/
theorem recompiled_eq (hreach : Reaches root scope) (filter : Object) :
    recompiled scope filter = compileRows (filter.flatMap (keyRows (fieldsOf scope))) := by
  rw [recompiled, ← compileRows_topLevel]
  exact congrArg compileRows (topLevel_restore (universe_known root) hreach.known filter)

/-- The rows restored at a target are those of its field. -/
theorem filter_isAt_keyRows (hdistinct : Entries.Distinct filter)
    (hkeys : ∀ key ∈ Entries.keys filter, ∃ field, scope.Finds field ∧ field.target = key)
    {field : Field Scope} (hfield : scope.Finds field) :
    (filter.flatMap (keyRows (fieldsOf scope))).filter (Condition.isAt field.target) =
      ((Entries.get? filter field.target).map (headRows field none)).getD [] := by
  induction filter with
  | nil => rfl
  | cons entry filter ih =>
    obtain ⟨key, value⟩ := entry
    obtain ⟨hnew, hrest⟩ := List.nodup_cons.1 hdistinct
    obtain ⟨other, hother, rfl⟩ := hkeys key List.mem_cons_self
    have ih := ih hrest fun k hk => hkeys k (List.mem_cons_of_mem _ hk)
    rw [List.flatMap_cons, List.filter_append, ih, keyRows_of_finds hother, Entries.get?_cons]
    by_cases heq : other.target = field.target
    · obtain rfl := hother.eq_of_target hfield heq
      have hall : (headRows other none value).filter (Condition.isAt other.target) =
          headRows other none value := by
        refine List.filter_eq_self.2 fun row hrow => ?_
        rw [isAt_of_mem_headRows hrow, beq_self_eq_true]
      rw [hall, if_pos rfl, Entries.get?_eq_none.2 hnew]
      exact List.append_nil _
    · have hnone : (headRows other none value).filter (Condition.isAt field.target) = [] := by
        refine List.filter_eq_nil_iff.2 fun row hrow => ?_
        rw [isAt_of_mem_headRows hrow, beq_eq_false_iff_ne.2 heq]
        exact Bool.false_ne_true
      rw [hnone, if_neg heq, List.nil_append]

/-- What is found at a target after a filter was restored comes from its operators. -/
theorem mem_keys_recompiled (hreach : Reaches root scope) (hdistinct : Entries.Distinct filter)
    (hkeys : ∀ key ∈ Entries.keys filter, ∃ field, scope.Finds field ∧ field.target = key)
    {field : Field Scope} (hfield : scope.Finds field) :
    field.target ∈ Entries.keys (recompiled scope filter) ↔
      (((Entries.get? filter field.target).map (headRows field none)).getD []).filterMap part? ≠
        [] := by
  rw [recompiled_eq hreach, mem_keys_compileRows_iff,
    filter_isAt_keyRows hdistinct hkeys hfield]

/-- At the target of a field stands what its operators become when they are compiled again. -/
theorem get?_recompiled (hreach : Reaches root scope) (hdistinct : Entries.Distinct filter)
    (hkeys : ∀ key ∈ Entries.keys filter, ∃ field, scope.Finds field ∧ field.target = key)
    {field : Field Scope} (hfield : scope.Finds field) {operators : Object}
    (hget : Entries.get? filter field.target = some (.object operators))
    (h : field.target ∈ Entries.keys (recompiled scope filter)) :
    Entries.get? (recompiled scope filter) field.target =
      some (.object (operatorsAgain field operators)) := by
  rw [recompiled_eq hreach] at h ⊢
  rw [get?_compileRows_target h, operatorsOn,
    filter_isAt_keyRows hdistinct hkeys hfield, hget]
  rfl

/-- Restoring a filter finds no other keys. -/
theorem mem_keys_of_recompiled (hreach : Reaches root scope)
    (hkeys : ∀ key ∈ Entries.keys filter, ∃ field ∈ fieldsOf scope, field.target = key)
    {key : String} (h : key ∈ Entries.keys (recompiled scope filter)) :
    key ∈ Entries.keys filter := by
  rw [recompiled_eq hreach] at h
  obtain ⟨row, hrow, fragment, hwrites⟩ := mem_keys_compileRows.1 h
  obtain ⟨entry, hentry, hrow⟩ := List.mem_flatMap.1 hrow
  obtain ⟨field, hfield, htarget⟩ := hkeys entry.1 (Entries.mem_keys_of_mem hentry)
  have hhead : row ∈ headRows field none entry.2 := by
    rw [← keyRows_target hreach.proper hfield, htarget]
    exact hrow
  have hsome : row.field? = some field :=
    Condition.field?_eq_some.2 (subject_of_mem_headRows hhead)
  rw [fragment?_eq_part? hsome] at hwrites
  obtain ⟨part, -, heq⟩ := Option.map_eq_some_iff.1 hwrites
  rw [← (Prod.mk.inj heq).1, htarget]
  exact Entries.mem_keys_of_mem hentry

/-- A filter of rows says the same after it was restored and compiled again if and only if the
operators on each field do. -/
theorem same_recompiled_iff (hreach : Reaches root scope) {rows : List (Condition Scope)}
    (hkeys : ∀ key ∈ Entries.keys (compileRows rows), ∃ field ∈ fieldsOf scope,
      field.target = key)
    (hne : ∀ field ∈ fieldsOf scope, field.target ∈ Entries.keys (compileRows rows) →
      operatorsOn field rows ≠ []) :
    Json.Same (.object (recompiled scope (compileRows rows))) (.object (compileRows rows)) ↔
      ∀ field ∈ fieldsOf scope, field.target ∈ Entries.keys (compileRows rows) →
        Json.Same (.object (operatorsAgain field (operatorsOn field rows)))
          (.object (operatorsOn field rows)) := by
  have hdistinct := distinct_compileRows rows
  have hfinds : ∀ field ∈ fieldsOf scope, scope.Finds field := fun _ => hreach.proper.finds
  have hfound : ∀ key ∈ Entries.keys (compileRows rows), ∃ field, scope.Finds field ∧
      field.target = key := by
    intro key hkey
    obtain ⟨field, hfield, htarget⟩ := hkeys key hkey
    exact ⟨field, hfinds field hfield, htarget⟩
  rw [Json.same_object_iff]
  constructor
  · rintro ⟨hsame, hvalues⟩ field hfield hkey
    have hget := get?_compileRows_target hkey
    have hagain := get?_recompiled hreach hdistinct hfound (hfinds field hfield) hget
      ((hsame _).2 hkey)
    exact hvalues _ _ _ hagain hget
  · intro h
    have hmem : ∀ key ∈ Entries.keys (compileRows rows),
        key ∈ Entries.keys (recompiled scope (compileRows rows)) := by
      intro key hkey
      obtain ⟨field, hfield, rfl⟩ := hkeys key hkey
      rw [mem_keys_recompiled hreach hdistinct hfound (hfinds field hfield),
        get?_compileRows_target hkey]
      intro hnil
      -- operators that are restored to nothing would not be the same
      obtain ⟨word, hword⟩ : ∃ word, word ∈ Entries.keys (operatorsOn field rows) := by
        cases hoperators : operatorsOn field rows with
        | nil => exact absurd hoperators (hne field hfield hkey)
        | cons entry operators => exact ⟨entry.1, List.mem_cons_self⟩
      have hagain := (Json.same_object_iff.1 (h field hfield hkey)).1 word
      have hempty : operatorsAgain field (operatorsOn field rows) = [] := by
        change united (((some (Json.object (operatorsOn field rows))).map
          (headRows field none)).getD [] |>.filterMap part?) = []
        rw [hnil]
        rfl
      rw [hempty] at hagain
      exact absurd (hagain.2 hword) List.not_mem_nil
    refine ⟨fun key => ⟨mem_keys_of_recompiled hreach hkeys, hmem key⟩, ?_⟩
    intro key x y hx hy
    obtain ⟨field, hfield, rfl⟩ := hkeys key (Entries.mem_keys_of_get? hy)
    have hkey := Entries.mem_keys_of_get? hy
    have hget := get?_compileRows_target hkey
    rw [get?_recompiled hreach hdistinct hfound (hfinds field hfield) hget (hmem _ hkey)] at hx
    rw [hget] at hy
    rw [← Option.some.inj hx, ← Option.some.inj hy]
    exact h field hfield hkey

end Recompiled

/-! ### Rows on a field of the scope -/

/-- Rows over a scope write at the targets of its fields. -/
theorem RowOver.exists_target {scope : Scope} {row : Condition Scope} (h : RowOver scope row)
    {target : String} {part : Object} (hwrites : fragment? row = some (target, part)) :
    ∃ field ∈ fieldsOf scope, row.field? = some field ∧ field.target = target := by
  obtain ⟨field, hfield, _, _, hsubject, _⟩ := h.exists_spec
  have hsome := Condition.field?_eq_some.2 hsubject
  rw [fragment?_eq_part? hsome] at hwrites
  obtain ⟨_, -, heq⟩ := Option.map_eq_some_iff.1 hwrites
  exact ⟨field, hfield, hsome, (Prod.mk.inj heq).1⟩

/-- The rows that write at the target of a field are the rows on the field. -/
theorem filter_isAt_eq {scope : Scope} (hproper : scope.Proper) {rows : List (Condition Scope)}
    (hrows : ∀ row ∈ rows, RowOver scope row) {field : Field Scope}
    (hfield : field ∈ fieldsOf scope) :
    rows.filter (Condition.isAt field.target) = rows.filter (Condition.isOn field) := by
  refine List.filter_congr fun row hrow => ?_
  obtain ⟨other, hother, _, _, hsubject, _⟩ := (hrows row hrow).exists_spec
  rw [Condition.isAt, Condition.isOn, Condition.field?, hsubject]
  by_cases heq : other = field
  · rw [heq]
    simp [Subject.field?]
  · have htarget : other.target ≠ field.target := fun h =>
      heq (eq_of_target hproper hother hfield h)
    have hname : other.name ≠ field.name := fun h => heq (eq_of_name hother hfield h)
    simp [Subject.field?, htarget, hname]

/-! ### Rows and choices -/

/-- The operators that a choice on a field writes. -/
def Compile.choicePart? {σ : Type} [Schema σ] (field : Field σ) (choice : Operator × Value σ) :
    Option Object :=
  fragmentWith? field choice.1 choice.2 compileRows

/-- A row without a parent writes what its choice writes. -/
theorem part?_eq {σ : Type} [Schema σ] {row : Condition σ} {field : Field σ}
    (hsubject : row.subject = .field field) (hparent : row.parent = none) :
    part? row = ((field.type.operator? row.operator).map fun operator =>
      (operator, row.value)).bind (choicePart? field) := by
  have hfield := Condition.field?_eq_some.2 hsubject
  rw [part?, fragment?, counted?, hfield, hparent, Option.isSome_none, Bool.or_false]
  cases hoperator : field.type.operator? row.operator with
  | none =>
    split
    · rfl
    · rw [Option.bind_some, hoperator]
      rfl
  | some operator =>
    obtain ⟨spec, hspec, -⟩ := Option.map_eq_some_iff.1 hoperator
    have hlabel : spec.label = row.operator := by simpa using List.find?_some hspec
    have hdraft : row.isDraft = false := by
      rw [Condition.isDraft, ← hlabel]
      exact not_allBlank_label (List.mem_of_find?_eq_some hspec)
    rw [hdraft, if_neg Bool.false_ne_true, Option.bind_some, hoperator]
    simp only [Option.bind_some, Option.map_some, Option.map_map]
    exact congrFun Option.map_id _

/-- On a scalar field choices write the operators of their type. -/
theorem choicePart?_scalar {σ : Type} [Schema σ] {field : Field σ} (h : field.isRelation = false) :
    choicePart? field = (fragmentOf? field.type : Operator × Value σ → Option Object) :=
  funext fun _ => fragmentWith?_scalar h _ _ _

/-- The operators of a scalar field are restored to choices, which write them again. -/
theorem operatorsAgain_scalar {σ : Type} [Schema σ] {field : Field σ}
    (h : field.isRelation = false) (operators : Object) :
    operatorsAgain field operators =
      written field.type (chosen field.type operators : List (Operator × Value σ)) := by
  rw [operatorsAgain, written, headRows_scalar h, chosen, List.filterMap_map,
    List.filterMap_filterMap, ← choicePart?_scalar h]
  congr 1
  refine List.filterMap_congr fun row _ => ?_
  exact part?_eq rfl rfl

/-- A row that keeps a filter writes what the filter is compiled to again. -/
theorem part?_rowOf_filter {σ : Type} [Schema σ] {field : Field σ} {relation : Relation σ}
    (htype : field.isRelation = true) (hrelation : field.relation = some relation)
    {spec : OperatorSpec} (hspec : spec ∈ FieldType.relation.specs) (filter : Object) :
    part? (rowOf field none spec.label (.filter filter)) =
      relationFragment? field spec.operator (recompiled relation.scope filter) := by
  have hsubject : (rowOf field none spec.label (.filter filter)).subject = .field field := rfl
  rw [part?_eq hsubject rfl]
  change ((field.type.operator? spec.label).map fun operator =>
    (operator, Value.filter filter)).bind (choicePart? field) = _
  rw [type_eq_relation htype, FieldType.operator?_label hspec, Option.map_some,
    Option.bind_some, choicePart?, fragmentWith?_filter htype hrelation]
  rfl

/-- A restored row on a relation writes its filter compiled again. -/
theorem fragment?_rowOf_filter {σ : Type} [Schema σ] {field : Field σ} {relation : Relation σ}
    (htype : field.isRelation = true) (hrelation : field.relation = some relation)
    {spec : OperatorSpec} (hspec : spec ∈ FieldType.relation.specs) (filter : Object) :
    fragment? (rowOf field none spec.label (.filter filter)) =
      (relationFragment? field spec.operator (recompiled relation.scope filter)).map
        fun fragment => (field.target, fragment) := by
  have hfield : (rowOf field none spec.label (.filter filter)).field? = some field := rfl
  rw [fragment?_eq_part? hfield, part?_rowOf_filter htype hrelation hspec]

end QueryFilter
