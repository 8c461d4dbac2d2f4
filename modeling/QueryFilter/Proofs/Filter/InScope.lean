import QueryFilter.Proofs.Filter.Grounded

/-!
# Filters in scope

A filter is in scope if its keys are targets of fields of its scope, at every level of relations
(`InScope`).  Rows write at the target of their field whatever scope the field is from, so that the
filter of grounded rows is in scope if and only if the rows whose writing is left in the end are on
targets of the scope in which they stand (`inScope_compileRows_iff`).
-/

namespace QueryFilter

open Catalog Compile Restore

variable {σ : Type}

/-! ### Scopes of filters -/

/-- A key with its value stands in a scope: the key is the target of a field, and if this is a
relation the filters below its operators and its other entries stand in the scope it leads to. -/
inductive EntryInScope : Scope → String → Json → Prop
  | mk {scope : Scope} {field : Field Scope} {value : Json} (hfield : field ∈ fieldsOf scope)
      (hquantified : ∀ relation, field.relation = some relation →
        ∀ operator : Operator, operator.isRelation = true →
          ∀ inner, (operator.word, inner) ∈ value.entries →
            ∀ entry ∈ inner.entries, EntryInScope relation.scope entry.1 entry.2)
      (himplicit : ∀ relation, field.relation = some relation →
        ∀ entry ∈ value.entries,
          (∀ operator : Operator, operator.isRelation = true → entry.1 ≠ operator.word) →
            EntryInScope relation.scope entry.1 entry.2) :
      EntryInScope scope field.target value

/-- A key that stands in a scope is a target there. -/
theorem EntryInScope.exists_field {scope : Scope} {key : String} {value : Json}
    (h : EntryInScope scope key value) : ∃ field ∈ fieldsOf scope, field.target = key := by
  cases h with
  | mk hfield _ _ => exact ⟨_, hfield, rfl⟩

/-- All entries of a filter stand in the scope. -/
def InScope (scope : Scope) (filter : Object) : Prop :=
  ∀ entry ∈ filter, EntryInScope scope entry.1 entry.2

/-! ### Who writes last -/

/-- What a row writes under a word at a target. -/
def Condition.written? [Schema σ] (target word : String) (row : Condition σ) : Option Json :=
  if row.isAt target then (part? row).bind fun part => Entries.get? part word else none

/-- The last row that writes under a word at a target. -/
def Compile.lastWriter? [Schema σ] (rows : List (Condition σ)) (target word : String) :
    Option (Condition σ) :=
  rows.reverse.find? fun row => (row.written? target word).isSome

/-- The first of the operators that rows write at a target with a word come from the first row that
writes under the word. -/
theorem findSome?_parts [Schema σ] (rows : List (Condition σ)) (target word : String) :
    ((rows.filter (Condition.isAt target)).filterMap part?).findSome?
        (fun part => Entries.get? part word) =
      (rows.find? fun row => (row.written? target word).isSome).bind
        (Condition.written? target word) := by
  induction rows with
  | nil => rfl
  | cons row rows ih =>
    have hskip : row.written? target word = none →
        ((row :: rows).find? fun row => (row.written? target word).isSome) =
          rows.find? fun row => (row.written? target word).isSome := fun h =>
      List.find?_cons_of_neg (by rw [h]; exact Bool.false_ne_true)
    -- rows at other targets, and rows that do not write the word, are skipped on both sides
    by_cases hat : row.isAt target = true
    · have hwritten : row.written? target word =
          (part? row).bind fun part => Entries.get? part word := if_pos hat
      rw [List.filter_cons_of_pos hat]
      cases hpart : part? row with
      | none =>
        rw [hpart, Option.bind_none] at hwritten
        rw [List.filterMap_cons_none hpart, hskip hwritten, ih]
      | some part =>
        rw [hpart, Option.bind_some] at hwritten
        rw [List.filterMap_cons_some hpart]
        cases hget : Entries.get? part word with
        | none =>
          rw [hget] at hwritten
          rw [List.findSome?_cons_of_isNone (by rw [hget]; rfl), hskip hwritten, ih]
        | some operand =>
          rw [hget] at hwritten
          rw [List.findSome?_cons_of_isSome (by rw [hget]; rfl),
            List.find?_cons_of_pos (by rw [hwritten]; rfl), Option.bind_some, hwritten, hget]
    · have hwritten : row.written? target word = none := if_neg hat
      rw [List.filter_cons_of_neg hat, hskip hwritten, ih]

/-- The last writer of an operator is a row at the target that writes this operator. -/
theorem exists_part_of_lastWriter? [Schema σ] {rows : List (Condition σ)} {target word : String}
    {row : Condition σ} (h : lastWriter? rows target word = some row) :
    row ∈ rows ∧ row.isAt target = true ∧
      ∃ part operand, part? row = some part ∧ Entries.get? part word = some operand := by
  rw [lastWriter?] at h
  have hwrites := List.find?_some h
  obtain ⟨operand, hwritten⟩ := Option.isSome_iff_exists.1 hwrites
  rw [Condition.written?, Option.ite_none_right_eq_some, Option.bind_eq_some_iff] at hwritten
  obtain ⟨hat, part, hpart, hget⟩ := hwritten
  exact ⟨List.mem_reverse.1 (List.mem_of_find?_eq_some h), hat, part, operand, hpart, hget⟩

/-- What is found at a target is what was written last. -/
theorem get?_operatorsOn [Schema σ] {field : Field σ} {rows : List (Condition σ)}
    (hparts : ∀ row ∈ rows, row.isAt field.target = true → ∀ part, part? row = some part →
      Entries.Distinct part) (word : String) :
    Entries.get? (operatorsOn field rows) word =
      (lastWriter? rows field.target word).bind (Condition.written? field.target word) := by
  have hdistinct : ∀ part ∈ (rows.filter (Condition.isAt field.target)).filterMap part?,
      Entries.Distinct part := by
    intro part hpart
    obtain ⟨row, hrow, hpart⟩ := List.mem_filterMap.1 hpart
    obtain ⟨hrow, hat⟩ := List.mem_filter.1 hrow
    exact hparts row hrow hat part hpart
  rw [operatorsOn, united, Entries.get?_foldl_extend_last hdistinct, Entries.get?_nil,
    Option.or_none, ← List.filterMap_reverse, ← List.filter_reverse, findSome?_parts, lastWriter?]

/-! ### Rows at home -/

/-- Some row writes at a target. -/
def Compile.WriteAt [Schema σ] (rows : List (Condition σ)) (target : String) : Prop :=
  ∃ row ∈ rows, ∃ part, fragment? row = some (target, part)

/-- A target at which rows write is at home in a scope: it is the target of a field, and if this is
a relation the rows inside those that write there last are at home in the scope of the relation. -/
inductive AtHome : Scope → List (Condition Scope) → String → Prop
  | mk {scope : Scope} {rows : List (Condition Scope)} {field : Field Scope}
      (hfield : field ∈ fieldsOf scope)
      (hmany : ∀ relation, field.relation = some relation → relation.kind = .toMany →
        ∀ word row inner, lastWriter? rows field.target word = some row → row.Holds inner →
          ∀ target, WriteAt inner target → AtHome relation.scope inner target)
      (hone : ∀ relation, field.relation = some relation → relation.kind = .toOne →
        ∀ target row inner, lastWriter? rows field.target target = some row → row.Holds inner →
          AtHome relation.scope inner target) :
      AtHome scope rows field.target

/-- All targets at which rows write are at home. -/
def RowsAtHome (scope : Scope) (rows : List (Condition Scope)) : Prop :=
  ∀ target, WriteAt rows target → AtHome scope rows target

section Grounded

variable {root : Resource} {scope : Scope} {rows : List (Condition Scope)}

/-- A row that writes has no parent and is on a field that the resource reaches. -/
theorem Grounded.writer (h : Grounded root rows) {row : Condition Scope} (hrow : row ∈ rows)
    {part : Object} (hpart : part? row = some part) :
    row.parent = none ∧ ∃ field, row.field? = some field ∧ Known root field := by
  obtain ⟨hknown, -⟩ := h
  have hparent := parent_of_part? hpart
  refine ⟨hparent, ?_⟩
  cases hfield : row.field? with
  | none =>
    rw [part?, fragment?_of_labelOnly hfield] at hpart
    exact absurd hpart (by simp)
  | some field => exact ⟨field, rfl, hknown row hrow hparent field hfield⟩

/-- Grounded rows write at targets of scopes that the resource reaches. -/
theorem Grounded.exists_target (h : Grounded root rows) {row : Condition Scope} (hrow : row ∈ rows)
    {target : String} {part : Object} (hwrites : fragment? row = some (target, part)) :
    ∃ scope field, Reaches root scope ∧ field ∈ fieldsOf scope ∧ field.target = target := by
  have hpart : part? row = some part := by rw [part?, hwrites, Option.map_some]
  obtain ⟨-, field, hfield, below, hbelow, hmem⟩ := h.writer hrow hpart
  rw [fragment?_eq_part? hfield, hpart, Option.map_some] at hwrites
  exact ⟨below, field, hbelow, hmem, (Prod.mk.inj (Option.some.inj hwrites)).1⟩

/-- The targets of grounded rows are no operators of relations. -/
theorem Grounded.key_ne_word (h : Grounded root rows) {target : String}
    (htarget : target ∈ Entries.keys (compileRows rows)) {operator : Operator}
    (hoperator : operator.isRelation = true) : target ≠ operator.word := by
  obtain ⟨row, hrow, part, hwrites⟩ := mem_keys_compileRows.1 htarget
  obtain ⟨below, field, hbelow, hmem, rfl⟩ := h.exists_target hrow hwrites
  exact target_ne_word hbelow.proper hmem hoperator

/-- A row that writes at a relation is on a relation of this kind. -/
theorem Grounded.exists_relation (h : Grounded root rows) (hproper : scope.Proper)
    {field : Field Scope} (hfield : field ∈ fieldsOf scope) {relation : Relation Scope}
    (hrelation : field.relation = some relation) {row : Condition Scope} (hrow : row ∈ rows)
    (hat : row.isAt field.target = true) {part : Object} (hpart : part? row = some part) :
    ∃ own other, row.field? = some own ∧ own.isRelation = true ∧ own.relation = some other ∧
      other.kind = relation.kind := by
  obtain ⟨-, own, hown, below, hbelow, hmem⟩ := h.writer hrow hpart
  have htarget : own.target = field.target := by
    rw [Condition.isAt, hown] at hat
    simpa using hat
  -- the row may be on a field of another scope, but a target says what its field is
  have hshape := shape_eq_of_target hbelow.proper hproper hmem hfield htarget
  have hrelations := (Prod.mk.inj (Prod.mk.inj hshape).2).2
  rw [hrelation, Option.map_some, Option.map_eq_some_iff] at hrelations
  obtain ⟨other, hother, hsame⟩ := hrelations
  exact ⟨own, other, hown, isRelation_of_relation hbelow.proper hmem hother, hother,
    (Prod.mk.inj hsame).1⟩

/-- What grounded rows write at a relation, they write as rows on a relation of this kind. -/
theorem Grounded.relationPart (h : Grounded root rows) (hproper : scope.Proper)
    {field : Field Scope} (hfield : field ∈ fieldsOf scope) {relation : Relation Scope}
    (hrelation : field.relation = some relation) {row : Condition Scope} (hrow : row ∈ rows)
    (hat : row.isAt field.target = true) {part : Object} (hpart : part? row = some part) :
    RelationPart row relation.kind part := by
  obtain ⟨own, other, hown, htype, hother, hkind⟩ :=
    h.exists_relation hproper hfield hrelation hrow hat hpart
  rw [← hkind]
  exact relationPart_of_part? hown htype hother hpart

/-- The last row that writes under a word at a relation writes what is found there, as a row on a
relation. -/
theorem Grounded.lastWriter_writes (h : Grounded root rows) (hproper : scope.Proper)
    {field : Field Scope} (hfield : field ∈ fieldsOf scope) {relation : Relation Scope}
    (hrelation : field.relation = some relation) {word : String} {row : Condition Scope}
    (hlast : lastWriter? rows field.target word = some row) :
    (∀ inner, row.Holds inner → Grounded root inner) ∧
      ∃ part operand, RelationPart row relation.kind part ∧ Entries.get? part word = some operand ∧
        Entries.get? (operatorsOn field rows) word = some operand := by
  have hparts : ∀ row ∈ rows, row.isAt field.target = true → ∀ part, part? row = some part →
      RelationPart row relation.kind part := fun row hrow hat part hpart =>
    h.relationPart hproper hfield hrelation hrow hat hpart
  obtain ⟨hrow, hat, part, operand, hpart, hget⟩ := exists_part_of_lastWriter? hlast
  have hfound : Entries.get? (operatorsOn field rows) word = some operand := by
    rw [get?_operatorsOn fun row hrow hat part hpart => (hparts row hrow hat part hpart).distinct,
      hlast, Option.bind_some, Condition.written?, if_pos hat, hpart, Option.bind_some, hget]
  obtain ⟨hparent, -⟩ := h.writer hrow hpart
  obtain ⟨-, hbelow⟩ := h
  exact ⟨hbelow row hrow hparent, part, operand, hparts row hrow hat part hpart, hget, hfound⟩

/-- What is found under a word at a relation has a last writer. -/
theorem Grounded.exists_lastWriter (h : Grounded root rows) (hproper : scope.Proper)
    {field : Field Scope} (hfield : field ∈ fieldsOf scope) {relation : Relation Scope}
    (hrelation : field.relation = some relation) {word : String} {operand : Json}
    (hget : Entries.get? (operatorsOn field rows) word = some operand) :
    ∃ row part, lastWriter? rows field.target word = some row ∧
      (∀ inner, row.Holds inner → Grounded root inner) ∧ RelationPart row relation.kind part ∧
        Entries.get? part word = some operand := by
  have hfound := hget
  rw [get?_operatorsOn fun row hrow hat part hpart =>
    (h.relationPart hproper hfield hrelation hrow hat hpart).distinct,
    Option.bind_eq_some_iff] at hfound
  obtain ⟨row, hlast, -⟩ := hfound
  obtain ⟨hbelow, part, other, hpart, hother, hsame⟩ :=
    h.lastWriter_writes hproper hfield hrelation hlast
  rw [hget] at hsame
  obtain rfl := Option.some.inj hsame
  exact ⟨row, part, hlast, hbelow, hpart, hother⟩

end Grounded

/-! ### Exactness -/

/-- A single operator is found at its own word alone. -/
theorem eq_of_get?_single {operator : Operator} {operand value : Json} {word : String}
    (h : Entries.get? (single operator operand) word = some value) :
    word = operator.word ∧ value = operand := by
  rw [single, Entries.get?_cons, Entries.get?_nil, Option.ite_none_right_eq_some] at h
  exact ⟨h.1.symm, (Option.some.inj h.2).symm⟩

/-- What stands at a target at home stands in the scope. -/
theorem AtHome.entryInScope {root : Resource} {scope : Scope} {rows : List (Condition Scope)}
    {target : String} (h : AtHome scope rows target) (hreach : Reaches root scope)
    (hgrounded : Grounded root rows) {value : Json}
    (hget : Entries.get? (compileRows rows) target = some value) :
    EntryInScope scope target value := by
  induction h generalizing value with
  | @mk scope rows field hfield hmany hone ihmany ihone =>
    rw [get?_compileRows_target (Entries.mem_keys_of_get? hget)] at hget
    obtain rfl := Option.some.inj hget
    have hdistinct : Entries.Distinct (operatorsOn field rows) :=
      Entries.distinct_foldl_extend Entries.distinct_nil _
    refine .mk hfield (fun relation hrelation operator hoperator below hmem entry hentry => ?_)
      fun relation hrelation entry hmem hname => ?_
    · obtain ⟨row, part, hlast, hbelow, hpart, hget⟩ := hgrounded.exists_lastWriter hreach.proper
        hfield hrelation (hdistinct.get?_of_mem hmem)
      -- the last writer of the word says what stands below it
      cases hpart with
      | many _ hinner hkind =>
        obtain ⟨-, rfl⟩ := eq_of_get?_single hget
        exact ihmany relation hrelation hkind _ row _ hlast hinner entry.1
          (mem_keys_compileRows.1 (Entries.mem_keys_of_mem hentry)) (hreach.step hfield hrelation)
          (hbelow _ hinner) ((distinct_compileRows _).get?_of_mem hentry)
      | one hinner _ =>
        have hne := (hbelow _ hinner).key_ne_word (Entries.mem_keys_of_get? hget) hoperator
        exact absurd rfl hne
      | plain _ hoperand _ =>
        obtain ⟨-, rfl⟩ := eq_of_get?_single hget
        rw [hoperand] at hentry
        exact absurd hentry List.not_mem_nil
    · obtain ⟨row, part, hlast, hbelow, hpart, hget⟩ := hgrounded.exists_lastWriter hreach.proper
        hfield hrelation (hdistinct.get?_of_mem hmem)
      cases hpart with
      | many hoperator _ _ => exact absurd (eq_of_get?_single hget).1 (hname _ hoperator)
      | one hinner hkind =>
        exact ihone relation hrelation hkind entry.1 row _ hlast hinner
          (hreach.step hfield hrelation) (hbelow _ hinner) hget
      | plain hoperator _ _ => exact absurd (eq_of_get?_single hget).1 (hname _ hoperator)

/-- What stands in the scope was written at a target at home. -/
theorem EntryInScope.atHome {root : Resource} {scope : Scope} {rows : List (Condition Scope)}
    {target : String} {value : Json} (h : EntryInScope scope target value)
    (hreach : Reaches root scope) (hgrounded : Grounded root rows)
    (hget : Entries.get? (compileRows rows) target = some value) : AtHome scope rows target := by
  induction h generalizing rows with
  | @mk scope field value hfield hquantified himplicit ihquantified ihimplicit =>
    rw [get?_compileRows_target (Entries.mem_keys_of_get? hget)] at hget
    obtain rfl := Option.some.inj hget
    refine .mk hfield (fun relation hrelation hkind word row inner hlast hinner key hkey => ?_)
      fun relation hrelation hkind word row inner hlast hinner => ?_
    · obtain ⟨hbelow, part, operand, hpart, hget, hfound⟩ :=
        hgrounded.lastWriter_writes hreach.proper hfield hrelation hlast
      cases hpart with
      | many hoperator hsame _ =>
        obtain rfl := hinner.unique hsame
        obtain ⟨rfl, rfl⟩ := eq_of_get?_single hget
        obtain ⟨value, hvalue⟩ := Entries.exists_get? (mem_keys_compileRows.2 hkey)
        exact ihquantified relation hrelation _ hoperator _ (Entries.mem_of_get? hfound)
          (key, value) (Entries.mem_of_get? hvalue) (hreach.step hfield hrelation)
          (hbelow _ hinner) hvalue
      | one _ hother => exact absurd (hkind.symm.trans hother) (by simp)
      | plain _ _ hnone => exact absurd hinner (hnone inner)
    · obtain ⟨hbelow, part, operand, hpart, hget, hfound⟩ :=
        hgrounded.lastWriter_writes hreach.proper hfield hrelation hlast
      cases hpart with
      | many _ _ hother => exact absurd (hkind.symm.trans hother) (by simp)
      | one hsame _ =>
        obtain rfl := hinner.unique hsame
        have hname : ∀ operator : Operator, operator.isRelation = true → word ≠ operator.word :=
          fun operator => (hbelow _ hinner).key_ne_word (Entries.mem_keys_of_get? hget)
        exact ihimplicit relation hrelation (word, operand) (Entries.mem_of_get? hfound) hname
          (hreach.step hfield hrelation) (hbelow _ hinner) hget
      | plain _ _ hnone => exact absurd hinner (hnone inner)

/-- The filter of grounded rows is in scope if and only if its targets are at home. -/
theorem inScope_compileRows_iff {root : Resource} {scope : Scope} (hreach : Reaches root scope)
    {rows : List (Condition Scope)} (hgrounded : Grounded root rows) :
    InScope scope (compileRows rows) ↔ RowsAtHome scope rows := by
  constructor
  · intro h target htarget
    obtain ⟨value, hget⟩ := Entries.exists_get? (mem_keys_compileRows.2 htarget)
    exact (h _ (Entries.mem_of_get? hget)).atHome hreach hgrounded hget
  · intro h entry hentry
    have hget := (distinct_compileRows rows).get?_of_mem hentry
    have hhome := h entry.1 (mem_keys_compileRows.1 (Entries.mem_keys_of_mem hentry))
    exact hhome.entryInScope hreach hgrounded hget

/-! ### Rows of an editor -/

section Edited

variable {root : Resource} {scope : Scope} {rule : List (Condition Scope) → Prop}
  {rows : List (Condition Scope)}

/-- A row over a scope holds the rows of its value. -/
theorem RowOver.leads_of_holds {row : Condition Scope} (h : RowOver scope row)
    {inner : List (Condition Scope)} (hinner : row.Holds inner) :
    ∃ field ∈ fieldsOf scope, row.field? = some field ∧
      ∃ relation, field.relation = some relation ∧ row.Leads relation inner := by
  obtain ⟨field, hfield, hcontent⟩ := hinner
  cases h with
  | scalar id hmem hrelation _ hvalue =>
    obtain rfl := Option.some.inj hfield
    obtain ⟨relation, _, hsome, -⟩ := exists_restore_of_content? hvalue.ne_conditions hcontent
    rw [hrelation] at hsome
    exact absurd hsome (by simp)
  | related id hmem hrelation _ _ =>
    obtain rfl := Option.some.inj hfield
    obtain rfl := eq_of_content?_conditions hcontent
    exact ⟨_, hmem, rfl, _, hrelation, _, rfl, hrelation, rfl⟩

/-- The rows of an editor are grounded. -/
theorem Edited.grounded (hreach : Reaches root scope) (h : Edited rule scope rows) :
    Grounded root rows := by
  induction h with
  | level _ hrows _ ih =>
    refine .rows (fun row hrow _ field hfield => ?_) fun row hrow _ inner hinner => ?_
    · obtain ⟨other, hother, _, _, hsubject, _⟩ := (hrows row hrow).exists_spec
      rw [Condition.field?_eq_some.2 hsubject] at hfield
      rw [← Option.some.inj hfield]
      exact hreach.known other hother
    · obtain ⟨field, hfield, -, relation, hrelation, hleads⟩ :=
        (hrows row hrow).leads_of_holds hinner
      exact ih row hrow relation inner hleads (hreach.step hfield hrelation)

/-- The rows of an editor are at home. -/
theorem Edited.rowsAtHome (hreach : Reaches root scope) (h : Edited rule scope rows) :
    RowsAtHome scope rows := by
  have hgrounded := h.grounded hreach
  induction h with
  | @level scope rows _ hrows hbelow ih =>
    rintro target ⟨row, hrow, part, hwrites⟩
    obtain ⟨field, hfield, -, rfl⟩ := (hrows row hrow).exists_target hwrites
    have hinside : ∀ relation, field.relation = some relation → ∀ word row inner,
        lastWriter? rows field.target word = some row → row.Holds inner →
          RowsAtHome relation.scope inner := by
      intro relation hrelation word row inner hlast hinner
      obtain ⟨hbelow, -⟩ := hgrounded.lastWriter_writes hreach.proper hfield hrelation hlast
      obtain ⟨hrow, hat, -⟩ := exists_part_of_lastWriter? hlast
      obtain ⟨own, hown, hsome, other, hother, hleads⟩ := (hrows row hrow).leads_of_holds hinner
      -- a row that writes at the target is on this very field
      have htarget : own.target = field.target := by
        rw [Condition.isAt, hsome] at hat
        simpa using hat
      obtain rfl := eq_of_target hreach.proper hown hfield htarget
      obtain rfl := Option.some.inj (hother.symm.trans hrelation)
      exact ih row hrow _ inner hleads (hreach.step hfield hrelation) (hbelow inner hinner)
    refine .mk hfield (fun relation hrelation _ word row inner hlast hinner key hkey => ?_)
      fun relation hrelation hkind word row inner hlast hinner => ?_
    · exact hinside relation hrelation word row inner hlast hinner key hkey
    · apply hinside relation hrelation word row inner hlast hinner word
      obtain ⟨-, part, operand, hpart, hget, -⟩ :=
        hgrounded.lastWriter_writes hreach.proper hfield hrelation hlast
      cases hpart with
      | many _ _ hother => exact absurd (hkind.symm.trans hother) (by simp)
      | one hsame _ =>
        obtain rfl := hinner.unique hsame
        exact mem_keys_compileRows.1 (Entries.mem_keys_of_get? hget)
      | plain _ _ hnone => exact absurd hinner (hnone inner)

/-- The filter of the rows of an editor is in scope. -/
theorem Edited.inScope (hreach : Reaches root scope) (h : Edited rule scope rows) :
    InScope scope (compileRows rows) :=
  (inScope_compileRows_iff hreach (h.grounded hreach)).2 (h.rowsAtHome hreach)

end Edited

end QueryFilter
