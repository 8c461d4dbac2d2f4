import QueryFilter.Proofs.Filter.Grounded
import QueryFilter.Proofs.Filter.Quantified
import QueryFilter.Proofs.Filter.Written

/-!
# Filters that a backend understands

A filter is well-formed if every key is the target of a field that the resource reaches and has
below it what suits this field: operators that the type offers with operands of the type,
quantifiers with well-formed filters, or a well-formed filter (`WellFormed`).

Whatever object is read, the filter of its rows is well-formed (`wellFormed_recompiled`).
-/

namespace QueryFilter

open Catalog Compile Restore

/-! ### What is well-formed -/

/-- An operand as it may stand beside an operator of a type. -/
inductive OperandFor : FieldType → Operator → Json → Prop
  | text {operator : Operator} (s : String) : OperandFor .text operator (.string s)
  | number {operator : Operator} (n : Number) : OperandFor .number operator (.number n)
  | numberText {operator : Operator} (s : String) : OperandFor .number operator (.string s)
  | date {operator : Operator} {s : String} (h : Text.allBlank s = false) :
      OperandFor .date operator (.string s)
  | choice {operator : Operator} (s : String) : OperandFor .select operator (.string s)
  | choices {operator : Operator} (h : operator.isList = true) (texts : List String) :
      OperandFor .select operator (.ofStrings texts)
  | several {operator : Operator} (texts : List String) :
      OperandFor .multiSelect operator (.ofStrings texts)
  | truth {operator : Operator} (b : Bool) : OperandFor .boolean operator (.bool b)
  | truthText {operator : Operator} (s : String) : OperandFor .boolean operator (.string s)

/-- Operators as they may stand on a scalar field: each is offered by the type and none is a range,
and exactly on texts it is said that case does not matter. -/
structure OperatorsFor (type : FieldType) (operators : Object) : Prop where
  ne_nil : operators ≠ []
  distinct : Entries.Distinct operators
  offered : ∀ entry ∈ operators, entry.1 ≠ modeKey →
    ∃ operator ∈ type.specs.map OperatorSpec.operator, operator ≠ .between ∧
      entry.1 = operator.word ∧ OperandFor type operator entry.2
  mode : ∀ value, (modeKey, value) ∈ operators ↔ type = .text ∧ value = .string insensitive

/-- Operators as they may stand on a relation to many items: each is one of relations and has an
object below it. -/
structure RelationOperators (operators : Object) : Prop where
  ne_nil : operators ≠ []
  distinct : Entries.Distinct operators
  offered : ∀ entry ∈ operators, ∃ operator : Operator, operator.isRelation = true ∧
    entry.1 = operator.word
  objects : ∀ entry ∈ operators, ∃ inner, entry.2 = .object inner ∧ Entries.Distinct inner

/-- A key with its value is well-formed: the key is the target of a field that the resource reaches,
and the value is an object that suits this field. -/
inductive EntryWellFormed (root : Resource) : String → Json → Prop
  | scalar {field : Field Scope} {operators : Object} (hfield : Known root field)
      (hrelation : field.relation = none) (hoperators : OperatorsFor field.type operators) :
      EntryWellFormed root field.target (.object operators)
  | toMany {field : Field Scope} {relation : Relation Scope} {operators : Object}
      (hfield : Known root field) (hrelation : field.relation = some relation)
      (hkind : relation.kind = .toMany) (hoperators : RelationOperators operators)
      (hbelow : ∀ entry ∈ operators, ∀ inner ∈ entry.2.entries,
        EntryWellFormed root inner.1 inner.2) :
      EntryWellFormed root field.target (.object operators)
  | toOne {field : Field Scope} {relation : Relation Scope} {inner : Object}
      (hfield : Known root field) (hrelation : field.relation = some relation)
      (hkind : relation.kind = .toOne) (hne : inner ≠ []) (hdistinct : Entries.Distinct inner)
      (hbelow : ∀ entry ∈ inner, EntryWellFormed root entry.1 entry.2) :
      EntryWellFormed root field.target (.object inner)

/-- All entries of a filter are well-formed. -/
def WellFormed (root : Resource) (filter : Object) : Prop :=
  Entries.Distinct filter ∧ ∀ entry ∈ filter, EntryWellFormed root entry.1 entry.2

/-! ### Keys -/

/-- An operand of a type has well-formed keys. -/
theorem OperandFor.wellKeyed {type : FieldType} {operator : Operator} {operand : Json}
    (h : OperandFor type operator operand) : operand.WellKeyed := by
  cases h with
  | choices _ texts => exact wellKeyed_ofStrings texts
  | several texts => exact wellKeyed_ofStrings texts
  | _ => trivial

/-- Operators of a type with their operands have well-formed keys. -/
theorem OperatorsFor.wellKeyed {type : FieldType} {operators : Object}
    (h : OperatorsFor type operators) : EntriesWellKeyed operators := by
  refine entriesWellKeyed_iff.2 ⟨h.distinct, fun entry hentry => ?_⟩
  by_cases hmode : entry.1 = modeKey
  · have hvalue := (h.mode entry.2).1 (hmode ▸ hentry)
    rw [hmode, hvalue.2]
    exact ⟨by decide, trivial⟩
  · obtain ⟨operator, -, -, hword, hoperand⟩ := h.offered entry hentry hmode
    rw [hword]
    exact ⟨word_ne_empty operator, hoperand.wellKeyed⟩

/-- A well-formed entry has no empty key and no key twice. -/
theorem EntryWellFormed.wellKeyed {root : Resource} {key : String} {value : Json}
    (h : EntryWellFormed root key value) : key ≠ "" ∧ value.WellKeyed := by
  induction h with
  | scalar hfield _ hoperators =>
    rw [Json.WellKeyed]
    exact ⟨hfield.target_ne_empty, hoperators.wellKeyed⟩
  | toMany hfield _ _ hoperators _ ih =>
    rw [Json.WellKeyed]
    refine ⟨hfield.target_ne_empty, entriesWellKeyed_iff.2 ⟨hoperators.distinct, ?_⟩⟩
    intro entry hentry
    obtain ⟨operator, -, hword⟩ := hoperators.offered entry hentry
    obtain ⟨inner, hinner, hdistinct⟩ := hoperators.objects entry hentry
    rw [hword, hinner, Json.WellKeyed]
    refine ⟨word_ne_empty operator, entriesWellKeyed_iff.2 ⟨hdistinct, fun below hbelow => ?_⟩⟩
    exact ih entry hentry below (by rw [hinner]; exact hbelow)
  | toOne hfield _ _ _ hdistinct _ ih =>
    rw [Json.WellKeyed]
    exact ⟨hfield.target_ne_empty, entriesWellKeyed_iff.2 ⟨hdistinct, ih⟩⟩

/-- A well-formed filter has no empty key and no key twice. -/
theorem WellFormed.wellKeyed {root : Resource} {filter : Object} (h : WellFormed root filter) :
    EntriesWellKeyed filter :=
  entriesWellKeyed_iff.2 ⟨h.1, fun entry hentry => (h.2 entry hentry).wellKeyed⟩

/-! ### Entries that are put together -/

/-- Fields with one target have one type and relations of one kind. -/
theorem Catalog.Known.same_kind {root : Resource} {a b : Field Scope} (ha : Known root a)
    (hb : Known root b) (heq : a.target = b.target) : a.type = b.type ∧ a.kind? = b.kind? := by
  obtain ⟨s, hs, ha⟩ := ha
  obtain ⟨t, ht, hb⟩ := hb
  have hshape := shape_eq_of_target hs.proper ht.proper ha hb heq
  obtain ⟨htype, hrelation⟩ := Prod.mk.inj (Prod.mk.inj hshape).2
  refine ⟨htype, ?_⟩
  have hkind := congrArg (Option.map Prod.fst) hrelation
  rwa [Option.map_map, Option.map_map] at hkind

/-- Operators of a type stay so when others of this type are written to them. -/
theorem OperatorsFor.extend {type : FieldType} {operators more : Object}
    (h : OperatorsFor type operators) (hmore : OperatorsFor type more) :
    OperatorsFor type (Entries.extend operators more) where
  ne_nil := Entries.extend_ne_nil h.ne_nil _
  distinct := h.distinct.extend _
  offered entry hentry :=
    (Entries.mem_extend hentry).elim (h.offered entry) (hmore.offered entry)
  mode value := by
    constructor
    · intro hmem
      exact (Entries.mem_extend hmem).elim (h.mode value).1 (hmore.mode value).1
    · rintro ⟨htype, rfl⟩
      have hkey := Entries.mem_keys_of_mem ((h.mode _).2 ⟨htype, rfl⟩)
      have hkept : modeKey ∈ Entries.keys (Entries.extend operators more) :=
        Entries.mem_keys_extend.2 (.inl hkey)
      obtain ⟨found, hfound⟩ := Entries.mem_keys.1 hkept
      have hmode := (Entries.mem_extend hfound).elim (h.mode found).1 (hmore.mode found).1
      rwa [← hmode.2]

/-- Operators of relations stay so when others are written to them. -/
theorem RelationOperators.extend {operators more : Object} (h : RelationOperators operators)
    (hmore : RelationOperators more) : RelationOperators (Entries.extend operators more) where
  ne_nil := Entries.extend_ne_nil h.ne_nil _
  distinct := h.distinct.extend _
  offered entry hentry :=
    (Entries.mem_extend hentry).elim (h.offered entry) (hmore.offered entry)
  objects entry hentry :=
    (Entries.mem_extend hentry).elim (h.objects entry) (hmore.objects entry)

/-- What may stand below a field of a type that leads to items of a kind. -/
def FitsField (root : Resource) (type : FieldType) : Option RelationKind → Object → Prop
  | none, operators => OperatorsFor type operators
  | some .toMany, operators => RelationOperators operators ∧
      ∀ entry ∈ operators, ∀ inner ∈ entry.2.entries, EntryWellFormed root inner.1 inner.2
  | some .toOne, inner => inner ≠ [] ∧ WellFormed root inner

/-- A field is of no kind exactly if it has no relation. -/
theorem kind?_eq_none {σ : Type} {field : Field σ} : field.kind? = none ↔ field.relation = none :=
  Option.map_eq_none_iff

/-- A well-formed entry is the target of a field with what fits it. -/
theorem entryWellFormed_iff {root : Resource} {key : String} {value : Json} :
    EntryWellFormed root key value ↔ ∃ field operators, Known root field ∧ field.target = key ∧
      value = .object operators ∧ FitsField root field.type field.kind? operators := by
  constructor
  · intro h
    cases h with
    | @scalar field operators hfield hrelation hoperators =>
      refine ⟨field, operators, hfield, rfl, rfl, ?_⟩
      rwa [kind?_eq_none.2 hrelation]
    | @toMany field relation operators hfield hrelation hkind hoperators hbelow =>
      refine ⟨field, operators, hfield, rfl, rfl, ?_⟩
      rw [kind?_eq_some hrelation, hkind]
      exact ⟨hoperators, hbelow⟩
    | @toOne field relation inner hfield hrelation hkind hne hdistinct hbelow =>
      refine ⟨field, inner, hfield, rfl, rfl, ?_⟩
      rw [kind?_eq_some hrelation, hkind]
      exact ⟨hne, hdistinct, hbelow⟩
  · rintro ⟨field, operators, hfield, rfl, rfl, hfits⟩
    cases hrelation : field.relation with
    | none =>
      rw [kind?_eq_none.2 hrelation] at hfits
      exact .scalar hfield hrelation hfits
    | some relation =>
      rw [kind?_eq_some hrelation] at hfits
      cases hkind : relation.kind with
      | toMany =>
        rw [hkind] at hfits
        exact .toMany hfield hrelation hkind hfits.1 hfits.2
      | toOne =>
        rw [hkind] at hfits
        exact .toOne hfield hrelation hkind hfits.1 hfits.2.1 hfits.2.2

/-- What fits a field has each key once. -/
theorem FitsField.distinct {root : Resource} {type : FieldType} {kind : Option RelationKind}
    {operators : Object} (h : FitsField root type kind operators) :
    Entries.Distinct operators := by
  cases kind with
  | none => exact OperatorsFor.distinct h
  | some kind =>
    cases kind with
    | toMany => exact h.1.distinct
    | toOne => exact h.2.1

/-- What fits a field does so when more that fits is written to it. -/
theorem FitsField.extend {root : Resource} {type : FieldType} {kind : Option RelationKind}
    {operators more : Object} (h : FitsField root type kind operators)
    (hmore : FitsField root type kind more) :
    FitsField root type kind (Entries.extend operators more) := by
  cases kind with
  | none => exact OperatorsFor.extend h hmore
  | some kind =>
    cases kind with
    | toMany =>
      refine ⟨h.1.extend hmore.1, fun entry hentry => ?_⟩
      exact (Entries.mem_extend hentry).elim (h.2 entry) (hmore.2 entry)
    | toOne =>
      refine ⟨Entries.extend_ne_nil h.1 _, h.2.1.extend _, fun entry hentry => ?_⟩
      exact (Entries.mem_extend hentry).elim (h.2.2 entry) (hmore.2.2 entry)

/-- What fits a field still does when it is put together. -/
theorem FitsField.united {root : Resource} {type : FieldType} {kind : Option RelationKind}
    {parts : List Object} (hne : parts ≠ [])
    (h : ∀ part ∈ parts, FitsField root type kind part) :
    FitsField root type kind (united parts) :=
  united_induction hne (fun _ => FitsField.distinct) (fun _ _ => FitsField.extend) h

/-! ### Rows -/

/-- An operand that is written fits its operator. -/
theorem WrittenOperand.operandFor {type : FieldType} {operator : Operator} {operand : Json}
    (h : WrittenOperand type operator operand) : OperandFor type operator operand := by
  cases h with
  | text s => exact .text s
  | number raw =>
    rcases Operand.numberJson_scalar raw with ⟨n, heq⟩ | ⟨s, heq⟩
    · rw [heq]
      exact .number n
    · rw [heq]
      exact .numberText s
  | date hblank => exact .date (Operand.not_allBlank_instant hblank)
  | choice s => exact .choice s
  | choices hlist texts => exact .choices hlist texts
  | several texts => exact .several texts
  | truth b => exact .truth b
  | truthText _ => exact .truthText _

/-- Operators that are written fit their type. -/
theorem WrittenOperators.operatorsFor {type : FieldType} {operators : Object}
    (h : WrittenOperators type operators) : OperatorsFor type operators where
  ne_nil := h.ne_nil
  distinct := h.distinct
  offered := by
    obtain ⟨-, -, hentries⟩ := h
    intro entry hentry hkey
    rcases mem_withMode.1 hentry with hmem | ⟨-, -, rfl⟩
    · obtain ⟨operator, hoffered, hne, hword, hwritten⟩ := hentries entry hmem
      exact ⟨operator, hoffered, hne, hword, hwritten.operandFor⟩
    · exact absurd rfl hkey
  mode := by
    obtain ⟨hne, -, hentries⟩ := h
    intro value
    rw [mem_withMode]
    constructor
    · rintro (hmem | ⟨-, htype, heq⟩)
      · exact absurd rfl (hentries _ hmem).key_ne
      · exact ⟨htype, (Prod.mk.inj heq).2⟩
    · rintro ⟨htype, rfl⟩
      exact .inr ⟨hne, htype, rfl⟩

/-- Where a row that is restored on a scalar field writes, it writes operators of the field. -/
theorem writtenOperators_of_part? {field : Field Scope} (hscalar : field.isRelation = false)
    {value : Json} {row : Condition Scope} (hrow : row ∈ headRows field none value) {part : Object}
    (hpart : part? row = some part) : WrittenOperators field.type part := by
  have htype : field.type ≠ .relation := by simpa [Field.isRelation] using hscalar
  rw [headRows_scalar hscalar] at hrow
  obtain ⟨pair, hpair, rfl⟩ := List.mem_map.1 hrow
  have hsubject : (rowOf field none pair.1 pair.2).subject = .field field := rfl
  rw [part?_eq hsubject rfl, Option.bind_map] at hpart
  refine writtenOperators_of_restored htype hpair ?_
  rw [← hpart]
  congr 1
  funext operator
  exact (fragmentWith?_scalar hscalar _ _ _).symm

/-- A relation writes what fits it for a well-formed filter. -/
theorem fitsField_of_relationFragment? {root : Resource} {field : Field Scope}
    {relation : Relation Scope} (hrelation : field.relation = some relation) {operator : Operator}
    (hoperator : operator.isRelation = true) {inner : Object} (hinner : WellFormed root inner)
    {part : Object} (h : relationFragment? field operator inner = some part) :
    FitsField root field.type field.kind? part := by
  rw [relationFragment?, kind?_eq_some hrelation] at h
  rw [kind?_eq_some hrelation]
  cases hkind : relation.kind with
  | toMany =>
    rw [hkind] at h
    obtain rfl := Option.some.inj h
    have hentry : ∀ entry ∈ single operator (.object inner),
        entry = (operator.word, .object inner) := fun entry => List.mem_singleton.1
    refine ⟨⟨List.cons_ne_nil _ _, List.nodup_singleton _, ?_, ?_⟩, ?_⟩
    · intro entry hmem
      rw [hentry entry hmem]
      exact ⟨operator, hoperator, rfl⟩
    · intro entry hmem
      rw [hentry entry hmem]
      exact ⟨_, rfl, hinner.1⟩
    · intro entry hmem
      rw [hentry entry hmem]
      exact hinner.2
  | toOne =>
    rw [hkind] at h
    simp only [Option.ite_none_left_eq_some, Option.some.injEq] at h
    obtain ⟨hne, rfl⟩ := h
    exact ⟨fun hnil => hne (List.isEmpty_iff.2 hnil), hinner⟩

/-- Where a row that is restored on a field writes, it writes what fits the field, if the filters
that are read inside it are well-formed. -/
theorem fitsField_of_restored {root : Resource} {field : Field Scope} (hfield : Known root field)
    {value : Json} {row : Condition Scope} (hrow : row ∈ headRows field none value)
    (hbelow : ∀ relation inner, field.relation = some relation →
      (Json.object inner).size ≤ value.size → WellFormed root (recompiled relation.scope inner))
    {part : Object} (hpart : part? row = some part) :
    FitsField root field.type field.kind? part := by
  obtain ⟨scope, hreach, hmem⟩ := hfield
  have hisRelation := isRelation_eq hreach.proper hmem
  cases hrelation : field.relation with
  | none =>
    rw [hrelation, Option.isSome_none] at hisRelation
    rw [kind?_eq_none.2 hrelation]
    exact (writtenOperators_of_part? hisRelation hrow hpart).operatorsFor
  | some relation =>
    rw [hrelation, Option.isSome_some] at hisRelation
    cases value with
    | object operators =>
      have hwritten : part ∈ (headRows field none (.object operators)).filterMap part? :=
        List.mem_filterMap.2 ⟨row, hrow, hpart⟩
      rw [filterMap_part?_relation hisRelation hrelation] at hwritten
      obtain ⟨pair, hpair, hwrites⟩ := List.mem_filterMap.1 hwritten
      have hdata : ∀ spec ∈ FieldType.relation.specs, spec.operator.isRelation = true := by decide
      obtain ⟨spec, hspec, hoperator⟩ := spec_of_mem_innerFilters hpair
      have hinside := hbelow relation pair.2 hrelation (size_innerFilters_le hpair)
      exact fitsField_of_relationFragment? hrelation (hoperator ▸ hdata spec hspec) hinside hwrites
    | _ =>
      unfold headRows at hrow
      rw [if_pos hisRelation] at hrow
      exact absurd hrow List.not_mem_nil

/-- Whatever object is read against a scope that the resource reaches, the filter of its rows is
well-formed. -/
theorem wellFormed_recompiled {root : Resource} {scope : Scope} (hreach : Reaches root scope)
    (filter : Object) : WellFormed root (recompiled scope filter) := by
  induction hsize : (Json.object filter).size using Nat.strongRecOn generalizing scope filter with
  | ind size ih =>
    refine ⟨distinct_compileRows _, fun entry hentry => ?_⟩
    have hwrites : ∀ row ∈ filter.flatMap (keyRows (fieldsOf scope)), ∀ target part,
        fragment? row = some (target, part) → ∃ field, Known root field ∧ field.target = target ∧
          FitsField root field.type field.kind? part := by
      intro row hrow target part hfragment
      obtain ⟨⟨key, value⟩, hmem, hrow⟩ := List.mem_flatMap.1 hrow
      obtain ⟨field, hlevels, -, hhead⟩ := field_of_mem_keyRows hrow
      have hfield := (universe_known root).mem_levels hreach.known field hlevels
      have hsome : row.field? = some field :=
        Condition.field?_eq_some.2 (subject_of_mem_headRows hhead)
      rw [fragment?_eq_part? hsome] at hfragment
      obtain ⟨_, hpart, heq⟩ := Option.map_eq_some_iff.1 hfragment
      obtain ⟨htarget, rfl⟩ := Prod.mk.inj heq
      refine ⟨field, hfield, htarget, fitsField_of_restored hfield hhead ?_ hpart⟩
      intro relation inner hrelation hle
      obtain ⟨own, hown, hfield⟩ := hfield
      have hsmaller : (Json.object inner).size < size :=
        hsize ▸ Nat.lt_of_le_of_lt hle (Json.size_lt_of_mem hmem)
      exact ih _ hsmaller (hown.step hfield hrelation) inner rfl
    rw [recompiled_eq hreach] at hentry
    have hkey := Entries.mem_keys_of_mem hentry
    have hget := (distinct_compileRows _).get?_of_mem hentry
    rw [get?_compileRows hkey] at hget
    obtain ⟨row, hrow, part, hfragment⟩ := mem_keys_compileRows.1 hkey
    obtain ⟨field, hfield, htarget, -⟩ := hwrites row hrow _ part hfragment
    refine entryWellFormed_iff.2 ⟨field, _, hfield, htarget, (Option.some.inj hget).symm, ?_⟩
    refine .united ?_ fun part hpart => ?_
    · rw [ne_eq, fragmentsAt_eq_nil, not_not]
      exact Entries.mem_keys_of_mem (List.mem_filterMap.2 ⟨row, hrow, hfragment⟩)
    · obtain ⟨⟨target, _⟩, hat, rfl⟩ := List.mem_map.1 hpart
      obtain ⟨hfound, htarget'⟩ := List.mem_filter.1 hat
      obtain ⟨row, hrow, hfragment⟩ := List.mem_filterMap.1 hfound
      obtain ⟨other, hother, hsame, hfits⟩ := hwrites row hrow _ _ hfragment
      -- the row may be on another field with the target, but a target says what its field is
      have heq : other.target = field.target := by
        rw [hsame, htarget]
        simpa using htarget'
      obtain ⟨htype, hkind⟩ := hother.same_kind hfield heq
      rwa [← htype, ← hkind]

end QueryFilter
