import QueryFilter.Proofs.Catalog.Paths
import QueryFilter.Proofs.Filter.InScope
import QueryFilter.Proofs.Filter.Joined
import QueryFilter.Proofs.Filter.WellFormed

/-!
# Nested filters on relations

On a relation the dialect expects filters: one below each quantifier if it leads to many items, or
an object with keys of the fields that it leads to (`Nested`).  A row on a relation whose value
holds no rows writes this value below its operator, as if the field were a scalar one; a new row is
such a row (`not_nested_forField`).

So the filter of grounded rows is nested if and only if the rows that write last at each relation
hold rows, under quantifiers or with keys of the fields that the relation leads to
(`nested_compileRows_iff`).
-/

namespace QueryFilter

open Catalog Compile Restore

variable {root : Resource} {scope : Scope} {rows : List (Condition Scope)}

/-! ### Nested filters -/

/-- A key with its value has nested filters wherever a relation is: below the quantifiers of a
relation to many items stand objects, and a relation to one item has an object with keys of the
fields that it leads to. -/
inductive EntryNested (root : Resource) : String → Json → Prop
  | scalar {field : Field Scope} (hfield : Known root field) (hrelation : field.relation = none)
      (value : Json) : EntryNested root field.target value
  | toMany {field : Field Scope} {relation : Relation Scope} {operators : Object}
      (hfield : Known root field) (hrelation : field.relation = some relation)
      (hkind : relation.kind = .toMany) (hne : operators ≠ [])
      (hwords : ∀ entry ∈ operators, ∃ operator ∈ quantifiers, entry.1 = operator.word)
      (hobjects : ∀ entry ∈ operators, entry.2.isObject = true)
      (hbelow : ∀ entry ∈ operators, ∀ inner ∈ entry.2.entries,
        EntryNested root inner.1 inner.2) :
      EntryNested root field.target (.object operators)
  | toOne {field : Field Scope} {relation : Relation Scope} {inner : Object}
      (hfield : Known root field) (hrelation : field.relation = some relation)
      (hkind : relation.kind = .toOne) (hne : inner ≠ [])
      (hkeys : ∀ entry ∈ inner, ∃ below ∈ fieldsOf relation.scope, below.target = entry.1)
      (hbelow : ∀ entry ∈ inner, EntryNested root entry.1 entry.2) :
      EntryNested root field.target (.object inner)

/-- All relations of a filter have nested filters. -/
def Nested (root : Resource) (filter : Object) : Prop :=
  ∀ entry ∈ filter, EntryNested root entry.1 entry.2

/-! ### Filled rows -/

/-- A target at which rows write is filled: if it is that of a relation, the rows that write last
there hold rows, under a quantifier or with a key of the fields that the relation leads to, and what
these rows leave in the filter is filled too. -/
inductive Filled (root : Resource) : List (Condition Scope) → String → Prop
  | scalar {rows : List (Condition Scope)} {field : Field Scope} (hfield : Known root field)
      (hrelation : field.relation = none) : Filled root rows field.target
  | toMany {rows : List (Condition Scope)} {field : Field Scope} {relation : Relation Scope}
      (hfield : Known root field) (hrelation : field.relation = some relation)
      (hkind : relation.kind = .toMany)
      (hlast : ∀ word row, lastWriter? rows field.target word = some row →
        (∃ operator ∈ quantifiers, word = operator.word) ∧ ∃ inner, row.Holds inner)
      (hbelow : ∀ word row inner, lastWriter? rows field.target word = some row →
        row.Holds inner → ∀ target, WriteAt inner target → Filled root inner target) :
      Filled root rows field.target
  | toOne {rows : List (Condition Scope)} {field : Field Scope} {relation : Relation Scope}
      (hfield : Known root field) (hrelation : field.relation = some relation)
      (hkind : relation.kind = .toOne)
      (hlast : ∀ word row, lastWriter? rows field.target word = some row →
        ∃ below ∈ fieldsOf relation.scope, below.target = word)
      (hbelow : ∀ word row inner, lastWriter? rows field.target word = some row →
        row.Holds inner → Filled root inner word) :
      Filled root rows field.target

/-- All targets at which rows write are filled. -/
def RowsFilled (root : Resource) (rows : List (Condition Scope)) : Prop :=
  ∀ target, WriteAt rows target → Filled root rows target

/-! ### What rows on relations write -/

/-- What a row on a relation writes is not empty. -/
theorem relationFragment?_ne_nil {field : Field Scope} {operator : Operator} {inner part : Object}
    (h : relationFragment? field operator inner = some part) : part ≠ [] := by
  have hitself : (if inner.isEmpty then none else some inner) = some part → part ≠ [] := by
    rw [Option.ite_none_left_eq_some, Option.some.injEq]
    rintro ⟨hne, rfl⟩ hnil
    exact hne (List.isEmpty_iff.2 hnil)
  unfold relationFragment? at h
  split at h
  · obtain rfl := Option.some.inj h
    exact List.cons_ne_nil _ _
  · exact hitself h
  · exact hitself h

/-- A row on a relation with an operator that the field offers and a value that holds no rows. -/
theorem fragment?_plain {field : Field Scope} (htype : field.isRelation = true)
    {spec : OperatorSpec} (hspec : spec ∈ field.specs) (id : Option RowId) {value : Value Scope}
    (hvalue : content? field value = none) :
    fragment? ⟨id, .field field, spec.label, value, none⟩ =
      some (field.target, single spec.operator value.toJson) := by
  rw [fragment?_offered id hspec, fragmentWith?, hvalue, type_eq_relation htype]
  rfl

/-- The value of a row on a relation that holds no rows is no object. -/
theorem not_isObject_of_content? {field : Field Scope} {relation : Relation Scope}
    (htype : field.isRelation = true) (hrelation : field.relation = some relation)
    {value : Value Scope} (h : content? field value = none) : value.toJson.isObject = false := by
  unfold content? contentBy at h
  rw [if_pos htype] at h
  cases value with
  | conditions rows => exact absurd h (by simp)
  | filter kept =>
    simp only [hrelation] at h
    exact absurd h (by simp)
  | _ => rfl

section Grounded

variable {field : Field Scope} {relation : Relation Scope}

/-- Where grounded rows write at a relation, something is written. -/
theorem Grounded.operatorsOn_ne_nil (h : Grounded root rows) (hproper : scope.Proper)
    (hfield : field ∈ fieldsOf scope) (hrelation : field.relation = some relation)
    (hkey : field.target ∈ Entries.keys (compileRows rows)) : operatorsOn field rows ≠ [] := by
  rw [mem_keys_compileRows_iff] at hkey
  obtain ⟨part, hmem⟩ := List.exists_mem_of_ne_nil _ hkey
  obtain ⟨row, hrow, hpart⟩ := List.mem_filterMap.1 hmem
  obtain ⟨hrow, hat⟩ := List.mem_filter.1 hrow
  obtain ⟨own, other, hown, htype, hother, -⟩ :=
    h.exists_relation hproper hfield hrelation hrow hat hpart
  have hne : part ≠ [] := by
    obtain ⟨operator, -, ⟨_, -, hfragment⟩ | ⟨-, rfl⟩⟩ :=
      exists_content_of_part? hown htype hother hpart
    · exact relationFragment?_ne_nil hfragment
    · exact List.cons_ne_nil _ _
  obtain ⟨entry, hentry⟩ := List.exists_mem_of_ne_nil part hne
  have hword : entry.1 ∈ Entries.keys (operatorsOn field rows) :=
    mem_keys_united.2 ⟨part, hmem, Entries.mem_keys_of_mem hentry⟩
  intro hnil
  rw [hnil] at hword
  exact absurd hword List.not_mem_nil

/-- An object at a relation was written by a row that holds rows. -/
theorem Grounded.holds_of_isObject (h : Grounded root rows) (hproper : scope.Proper)
    (hfield : field ∈ fieldsOf scope) (hrelation : field.relation = some relation) {word : String}
    {row : Condition Scope} (hlast : lastWriter? rows field.target word = some row)
    (hobject : ∀ operand, Entries.get? (operatorsOn field rows) word = some operand →
      operand.isObject = true) : ∃ inner, row.Holds inner := by
  obtain ⟨hrow, hat, part, operand, hpart, hget⟩ := exists_part_of_lastWriter? hlast
  have hfound : Entries.get? (operatorsOn field rows) word = some operand := by
    rw [get?_operatorsOn fun row hrow hat part hpart =>
      (h.relationPart hproper hfield hrelation hrow hat hpart).distinct,
      hlast, Option.bind_some, Condition.written?, if_pos hat, hpart, Option.bind_some, hget]
  obtain ⟨own, other, hown, htype, hother, -⟩ :=
    h.exists_relation hproper hfield hrelation hrow hat hpart
  obtain ⟨operator, -, ⟨inner, hinner, -⟩ | ⟨hnone, rfl⟩⟩ :=
    exists_content_of_part? hown htype hother hpart
  · exact ⟨inner, own, hown, hinner⟩
  · obtain ⟨-, rfl⟩ := eq_of_get?_single hget
    have hplain := not_isObject_of_content? htype hother hnone
    rw [hobject _ hfound] at hplain
    exact absurd hplain (by simp)

end Grounded

/-! ### Exactness -/

/-- What stands at a filled target has nested filters. -/
theorem Filled.entryNested {target : String} (h : Filled root rows target)
    (hgrounded : Grounded root rows) {value : Json}
    (hget : Entries.get? (compileRows rows) target = some value) :
    EntryNested root target value := by
  induction h generalizing value with
  | scalar hfield hrelation => exact .scalar hfield hrelation value
  | @toMany rows field relation hknown hrelation hkind hlast hbelow ih =>
    obtain ⟨own, hown, hfield⟩ := hknown
    have hkey := Entries.mem_keys_of_get? hget
    rw [get?_compileRows_target hkey] at hget
    obtain rfl := Option.some.inj hget
    -- each operator is the word of its last writer, with the filter of what this row holds
    have hwriter : ∀ entry ∈ operatorsOn field rows,
        ∃ operator row inner, lastWriter? rows field.target entry.1 = some row ∧
          operator ∈ quantifiers ∧ entry.1 = operator.word ∧ row.Holds inner ∧
          Grounded root inner ∧ entry.2 = .object (compileRows inner) := by
      intro entry hentry
      obtain ⟨row, part, hrow, hgrounds, hpart, hword⟩ := hgrounded.exists_lastWriter hown.proper
        hfield hrelation ((distinct_united _).get?_of_mem hentry)
      obtain ⟨⟨operator, hoperator, heq⟩, inner, hinner⟩ := hlast _ row hrow
      refine ⟨operator, row, inner, hrow, hoperator, heq, hinner, hgrounds inner hinner, ?_⟩
      cases hpart with
      | many _ hsame _ =>
        rw [(eq_of_get?_single hword).2, hsame.unique hinner]
      | one _ hother => exact absurd (hkind.symm.trans hother) (by simp)
      | plain _ _ hnone => exact absurd hinner (hnone inner)
    refine .toMany ⟨own, hown, hfield⟩ hrelation hkind
      (hgrounded.operatorsOn_ne_nil hown.proper hfield hrelation hkey) ?_ ?_ ?_
    · intro entry hentry
      obtain ⟨operator, -, -, -, hoperator, heq, -⟩ := hwriter entry hentry
      exact ⟨operator, hoperator, heq⟩
    · intro entry hentry
      obtain ⟨-, -, inner, -, -, -, -, -, heq⟩ := hwriter entry hentry
      rw [heq]
      rfl
    · intro entry hentry below hmem
      obtain ⟨-, row, inner, hrow, -, -, hinner, hgrounds, heq⟩ := hwriter entry hentry
      rw [heq] at hmem
      exact ih _ row inner hrow hinner below.1
        (mem_keys_compileRows.1 (Entries.mem_keys_of_mem hmem)) hgrounds
        ((distinct_compileRows _).get?_of_mem hmem)
  | @toOne rows field relation hknown hrelation hkind hlast hbelow ih =>
    obtain ⟨own, hown, hfield⟩ := hknown
    have hkey := Entries.mem_keys_of_get? hget
    rw [get?_compileRows_target hkey] at hget
    obtain rfl := Option.some.inj hget
    refine .toOne ⟨own, hown, hfield⟩ hrelation hkind
      (hgrounded.operatorsOn_ne_nil hown.proper hfield hrelation hkey) ?_ ?_
    · intro entry hentry
      obtain ⟨row, _, hrow, -⟩ := hgrounded.exists_lastWriter hown.proper hfield hrelation
        ((distinct_united _).get?_of_mem hentry)
      exact hlast _ row hrow
    · intro entry hentry
      obtain ⟨row, part, hrow, hgrounds, hpart, hword⟩ := hgrounded.exists_lastWriter hown.proper
        hfield hrelation ((distinct_united _).get?_of_mem hentry)
      cases hpart with
      | many _ _ hother => exact absurd (hkind.symm.trans hother) (by simp)
      | one hinner _ => exact ih _ row _ hrow hinner (hgrounds _ hinner) hword
      -- no target below is the word of an operator of relations
      | plain hoperator _ _ =>
        obtain ⟨below, hmem, heq⟩ := hlast _ row hrow
        have hreach := hown.step hfield hrelation
        have hname := target_ne_word hreach.proper hmem hoperator
        exact absurd (heq.trans (eq_of_get?_single hword).1) hname

/-- What has nested filters was written at a filled target. -/
theorem EntryNested.filled {target : String} {value : Json} (h : EntryNested root target value)
    (hgrounded : Grounded root rows)
    (hget : Entries.get? (compileRows rows) target = some value) : Filled root rows target := by
  induction h generalizing rows with
  | scalar hfield hrelation => exact .scalar hfield hrelation
  | @toMany field relation operators hknown hrelation hkind hne hwords hobjects hbelow ih =>
    obtain ⟨own, hown, hfield⟩ := hknown
    rw [get?_compileRows_target (Entries.mem_keys_of_get? hget)] at hget
    obtain rfl := Json.object.inj (Option.some.inj hget)
    -- what the last writer of a word wrote is found at this word
    refine .toMany ⟨own, hown, hfield⟩ hrelation hkind (fun word row hlast => ?_)
      fun word row inner hlast hinner key hkey => ?_
    · obtain ⟨-, _, _, -, -, hfound⟩ :=
        hgrounded.lastWriter_writes hown.proper hfield hrelation hlast
      refine ⟨hwords _ (Entries.mem_of_get? hfound), ?_⟩
      exact hgrounded.holds_of_isObject hown.proper hfield hrelation hlast fun operand hoperand =>
        hobjects _ (Entries.mem_of_get? hoperand)
    · obtain ⟨hgrounds, part, operand, hpart, hword, hfound⟩ :=
        hgrounded.lastWriter_writes hown.proper hfield hrelation hlast
      cases hpart with
      | many _ hsame _ =>
        obtain rfl := hinner.unique hsame
        obtain ⟨rfl, rfl⟩ := eq_of_get?_single hword
        obtain ⟨value, hvalue⟩ := Entries.exists_get? (mem_keys_compileRows.2 hkey)
        exact ih _ (Entries.mem_of_get? hfound) (key, value) (Entries.mem_of_get? hvalue)
          (hgrounds _ hinner) hvalue
      | one _ hother => exact absurd (hkind.symm.trans hother) (by simp)
      | plain _ _ hnone => exact absurd hinner (hnone inner)
  | @toOne field relation operators hknown hrelation hkind hne hkeys hbelow ih =>
    obtain ⟨own, hown, hfield⟩ := hknown
    rw [get?_compileRows_target (Entries.mem_keys_of_get? hget)] at hget
    obtain rfl := Json.object.inj (Option.some.inj hget)
    refine .toOne ⟨own, hown, hfield⟩ hrelation hkind (fun word row hlast => ?_)
      fun word row inner hlast hinner => ?_
    · obtain ⟨-, _, _, -, -, hfound⟩ :=
        hgrounded.lastWriter_writes hown.proper hfield hrelation hlast
      exact hkeys _ (Entries.mem_of_get? hfound)
    · obtain ⟨hgrounds, part, operand, hpart, hword, hfound⟩ :=
        hgrounded.lastWriter_writes hown.proper hfield hrelation hlast
      cases hpart with
      | many _ _ hother => exact absurd (hkind.symm.trans hother) (by simp)
      | one hsame _ =>
        obtain rfl := hinner.unique hsame
        exact ih _ (Entries.mem_of_get? hfound) (hgrounds _ hinner) hword
      | plain _ _ hnone => exact absurd hinner (hnone inner)

/-- The filter of grounded rows is nested if and only if the rows are filled. -/
theorem nested_compileRows_iff (hgrounded : Grounded root rows) :
    Nested root (compileRows rows) ↔ RowsFilled root rows := by
  constructor
  · intro h target htarget
    obtain ⟨value, hget⟩ := Entries.exists_get? (mem_keys_compileRows.2 htarget)
    exact (h _ (Entries.mem_of_get? hget)).filled hgrounded hget
  · intro h entry hentry
    have hget := (distinct_compileRows rows).get?_of_mem hentry
    have hfilled := h entry.1 (mem_keys_compileRows.1 (Entries.mem_keys_of_mem hentry))
    exact hfilled.entryNested hgrounded hget

/-! ### Rows on catalog fields -/

/-- Rows on known fields are grounded, however they were made, if the rows edited inside them are;
a filter that a row keeps may be any. -/
theorem grounded_of_known
    (hknown : ∀ row ∈ rows, ∃ field, row.field? = some field ∧ Known root field)
    (hbelow : ∀ row ∈ rows, ∀ inner, row.value = .conditions inner → Grounded root inner) :
    Grounded root rows := by
  refine .rows (fun row hrow _ field hfield => ?_) fun row hrow _ inner hinner => ?_
  · obtain ⟨own, hown, hroot⟩ := hknown row hrow
    obtain rfl := Option.some.inj (hown.symm.trans hfield)
    exact hroot
  · obtain ⟨own, hown, hroot⟩ := hknown row hrow
    obtain ⟨field, hfield, hcontent⟩ := hinner
    obtain rfl := Option.some.inj (hown.symm.trans hfield)
    by_cases hedited : ∃ edited, row.value = .conditions edited
    · obtain ⟨edited, hvalue⟩ := hedited
      rw [hvalue] at hcontent
      rw [eq_of_content?_conditions hcontent]
      exact hbelow row hrow edited hvalue
    · exact grounded_of_content? hroot (fun edited hvalue => hedited ⟨edited, hvalue⟩) hcontent

/-- Whatever grounded rows are compiled, the filter is nested exactly if the rows are filled. -/
theorem compile_nested_iff (hgrounded : Grounded root rows) (hne : rows ≠ []) :
    ∃ filter, compile rows = some filter ∧ (Nested root filter ↔ RowsFilled root rows) :=
  ⟨compileRows rows, compile_of_ne_nil hne, nested_compileRows_iff hgrounded⟩

/-- A row that speaks of some colleague. -/
def colleaguesRow (value : Value Scope) : Condition Scope :=
  .row none colleaguesField "algum" value

/-- Staff reach the staff of their companies. -/
theorem known_colleaguesField : Known .staff colleaguesField :=
  ⟨⟨.companies, "company__"⟩, .step .start companyField_mem rfl, colleaguesField_mem⟩

/-- The later row writes over the earlier one. -/
theorem compileRows_colleagues :
    compileRows [colleaguesRow (.text "ana"), colleaguesRow (.conditions [])] =
      [("staff", .object [("some", .object [])])] := by
  have hspec : (⟨"algum", .someRelated, "∃"⟩ : OperatorSpec) ∈ colleaguesField.specs := by decide
  have htext : fragment? (colleaguesRow (.text "ana")) =
      some ("staff", single .someRelated (.string "ana")) :=
    fragment?_plain rfl hspec none rfl
  have hempty : fragment? (colleaguesRow (.conditions [])) =
      some ("staff", single .someRelated (.object [])) := by
    have hwrites := fragment?_offered none hspec (.conditions [])
    rw [fragmentWith?_conditions rfl, relationFragment?_toMany rfl, compileRows_nil] at hwrites
    exact hwrites
  rw [compileRows_eq, List.filterMap_cons_some htext, List.filterMap_cons_some hempty]
  rfl

/-- Inside a company the later of two rows on its staff holds rows, so that nothing is left of the
text in the earlier one. -/
theorem compile_nested_colleagues :
    let rows := [Condition.row none companyField "possui"
      (.conditions [colleaguesRow (.text "ana"), colleaguesRow (.conditions [])])]
    Grounded .staff rows ∧ rows ≠ [] ∧
      (∃ filter, compile rows = some filter ∧ (Nested .staff filter ↔ RowsFilled .staff rows)) ∧
      RowsFilled .staff rows := by
  intro rows
  have hnone : Grounded .staff [] := .rows (fun _ h => absurd h List.not_mem_nil)
    fun _ h => absurd h List.not_mem_nil
  have hinside : Grounded .staff [colleaguesRow (.text "ana"), colleaguesRow (.conditions [])] := by
    refine grounded_of_known (fun row hrow => ?_) fun row hrow inner hinner => ?_
    · rcases List.mem_pair.1 hrow with rfl | rfl
      · exact ⟨_, rfl, known_colleaguesField⟩
      · exact ⟨_, rfl, known_colleaguesField⟩
    · rcases List.mem_pair.1 hrow with rfl | rfl
      · exact absurd hinner (by simp [colleaguesRow, Condition.row])
      · obtain rfl := Value.conditions.inj hinner
        exact hnone
  have hgrounded : Grounded .staff rows := by
    refine grounded_of_known (fun row hrow => ?_) fun row hrow inner hinner => ?_
    · obtain rfl := List.mem_singleton.1 hrow
      exact ⟨_, rfl, known_fields _ companyField_mem⟩
    · obtain rfl := List.mem_singleton.1 hrow
      obtain rfl := Value.conditions.inj hinner
      exact hinside
  have hne : rows ≠ [] := List.cons_ne_nil _ _
  have hexact := compile_nested_iff hgrounded hne
  refine ⟨hgrounded, hne, hexact, ?_⟩
  obtain ⟨filter, hcompile, hiff⟩ := hexact
  have hfilter : compileRows rows =
      [("company", .object [("staff", .object [("some", .object [])])])] := by
    have hspec : (⟨"possui", .related, "→"⟩ : OperatorSpec) ∈ companyField.specs := by decide
    have hwrites := fragment?_offered none hspec
      (.conditions [colleaguesRow (.text "ana"), colleaguesRow (.conditions [])])
    rw [fragmentWith?_conditions rfl, compileRows_colleagues,
      relationFragment?_toOne rfl _ (List.cons_ne_nil _ _)] at hwrites
    rw [compileRows_eq]
    exact congrArg (toFilter ∘ merge) (List.filterMap_cons_some hwrites)
  rw [compile_of_ne_nil hne, hfilter] at hcompile
  obtain rfl := Option.some.inj hcompile
  have hstaff : EntryNested .staff "staff" (.object [("some", .object [])]) :=
    .toMany known_colleaguesField rfl rfl (by simp) (by simp [quantifiers, Operator.word])
      (by simp [Json.isObject]) (by simp [Json.entries])
  refine hiff.1 fun entry hentry => ?_
  obtain rfl := List.mem_singleton.1 hentry
  refine .toOne (known_fields _ companyField_mem) rfl rfl (by simp) (fun entry hentry => ?_)
    fun entry hentry => ?_
  · obtain rfl := List.mem_singleton.1 hentry
    exact ⟨_, colleaguesField_mem, rfl⟩
  · obtain rfl := List.mem_singleton.1 hentry
    exact hstaff

/-! ### New rows -/

/-- The filter of such a row alone. -/
theorem compileRows_plain {field : Field Scope} (htype : field.isRelation = true)
    {spec : OperatorSpec} (hspec : spec ∈ field.specs) (id : Option RowId) {value : Value Scope}
    (hvalue : content? field value = none) :
    compileRows [⟨id, .field field, spec.label, value, none⟩] =
      [(field.target, .object (single spec.operator value.toJson))] := by
  rw [compileRows_eq, List.filterMap_cons_some (fragment?_plain htype hspec id hvalue),
    List.filterMap_nil]
  rfl

/-- Such a row has no nested filter. -/
theorem not_nested_plain {field : Field Scope} {relation : Relation Scope}
    (hfield : Known root field) (hrelation : field.relation = some relation) {spec : OperatorSpec}
    (hspec : spec ∈ field.specs) (id : Option RowId) {value : Value Scope}
    (hvalue : content? field value = none) :
    ¬ Nested root (compileRows [⟨id, .field field, spec.label, value, none⟩]) := by
  have htype : field.isRelation = true := hfield.isRelation_iff.2 ⟨relation, hrelation⟩
  have hoperator : spec.operator.isRelation = true := by
    have hdata : ∀ spec ∈ FieldType.relation.specs, spec.operator.isRelation = true := by decide
    have hmem := Field.mem_specs_of_mem hspec
    rw [type_eq_relation htype] at hmem
    exact hdata spec hmem
  rw [compileRows_plain htype hspec id hvalue]
  intro hnested
  have hentry := hnested _ List.mem_cons_self
  generalize htarget : field.target = target at hentry
  generalize hobject : Json.object (single spec.operator value.toJson) = object at hentry
  cases hentry with
  | @scalar other hother hnone =>
    have hkind := (hfield.same_kind hother htarget).2
    rw [kind?_eq_some hrelation, kind?_eq_none.2 hnone] at hkind
    exact absurd hkind (by simp)
  | toMany _ _ _ _ _ hobjects =>
    obtain rfl := Json.object.inj hobject
    have hplain := not_isObject_of_content? htype hrelation hvalue
    rw [hobjects _ List.mem_cons_self] at hplain
    exact absurd hplain (by simp)
  | @toOne other _ _ hother hlead _ _ hkeys =>
    obtain rfl := Json.object.inj hobject
    obtain ⟨own, hown, hmem⟩ := hother
    obtain ⟨below, hbelow, hname⟩ := hkeys _ List.mem_cons_self
    exact target_ne_word (hown.step hmem hlead).proper hbelow hoperator hname

/-- A relation offers an operator to a new row. -/
theorem exists_default {field : Field Scope} {relation : Relation Scope}
    (htype : field.isRelation = true) (hrelation : field.relation = some relation) :
    ∃ spec ∈ field.specs, field.defaultLabel? = some spec.label := by
  have hne : field.specs ≠ [] := by
    rw [Field.specs, kind?_eq_some hrelation, type_eq_relation htype]
    cases relation.kind <;> decide
  obtain ⟨spec, specs, hspecs⟩ := List.exists_cons_of_ne_nil hne
  refine ⟨spec, hspecs ▸ List.mem_cons_self, ?_⟩
  rw [Field.defaultLabel?, hspecs]
  rfl

/-- A new row on a relation never has a nested filter. -/
theorem not_nested_forField {field : Field Scope} (hfield : Known root field)
    (htype : field.isRelation = true) (id : Option RowId) :
    ¬ Nested root (compileRows [Condition.forField id field]) := by
  obtain ⟨relation, hrelation⟩ := hfield.isRelation_iff.1 htype
  obtain ⟨spec, hspec, hdefault⟩ := exists_default htype hrelation
  have hvalue : content? field (Value.blank : Value Scope) = none := by
    unfold content? contentBy
    rw [if_pos htype]
    rfl
  rw [Condition.forField, hdefault]
  exact not_nested_plain hfield hrelation hspec id hvalue

/-- A row that is moved to a relation is a new row there. -/
theorem not_nested_changeField {field : Field Scope} (hfield : Known root field)
    (htype : field.isRelation = true) {row : Condition Scope} (hparent : row.parent = none) :
    ¬ Nested root (compileRows [row.changeField field]) := by
  have hnew : row.changeField field = Condition.forField row.id field := by
    rw [Condition.changeField, hparent]
    rfl
  rw [hnew]
  exact not_nested_forField hfield htype row.id

/-- A new row on the company of staff asks for a company that is the empty text. -/
theorem newCompany_not_nested :
    Grounded .staff [Condition.forField none companyField] ∧
      compile [Condition.forField none companyField] =
        some [("company", .object [("is", .string "")])] ∧
      ¬ Nested .staff [("company", .object [("is", .string "")])] := by
  have hcompany : Known .staff companyField := known_fields _ companyField_mem
  have hspec : (⟨"possui", .related, "→"⟩ : OperatorSpec) ∈ companyField.specs := by decide
  have hfilter : compileRows [Condition.forField none companyField] =
      [("company", .object [("is", .string "")])] :=
    compileRows_plain rfl hspec none rfl
  refine ⟨?_, ?_, ?_⟩
  · refine grounded_of_known (fun row hrow => ?_) fun row hrow inner hinner => ?_
    · obtain rfl := List.mem_singleton.1 hrow
      exact ⟨_, rfl, hcompany⟩
    · obtain rfl := List.mem_singleton.1 hrow
      exact absurd hinner (by simp [Condition.forField, Condition.row, Value.blank])
  · rw [compile_of_ne_nil (List.cons_ne_nil _ _), hfilter]
  · rw [← hfilter]
    exact not_nested_forField hcompany rfl none

end QueryFilter
