import QueryFilter.Proofs.Filter.Quantified
import QueryFilter.Proofs.Filter.Settled
import QueryFilter.Proofs.Filter.WellFormed

/-!
# Normal filters

A filter is normalised when rows are restored from it and compiled again.  If its keys are targets
of the scope at every level of relations, or unknown to the schema, then what comes out is normal:
it has operators as rows write them, and nothing else (`normal_recompiled`).

A normal filter is normalised to itself, keys in order, if and only if every range in it is kept
(`recompiled_eq_self_iff`).  So normalising twice is the same as once if and only if the filter that
comes out of the first time keeps its ranges (`normalized_normalized_iff`).
-/

namespace QueryFilter

open Catalog Compile Restore

variable {root : Resource} {scope : Scope} {filter : Object}

/-! ### Keys -/

/-- A key is the target of a field of the scope, or neither the name nor the target of any field
that the resource reaches. -/
def TargetOrUnknown (root : Resource) (scope : Scope) (key : String) : Prop :=
  (∃ field ∈ fieldsOf scope, field.target = key) ∨
    ∀ field, Known root field → field.name ≠ key ∧ field.target ≠ key

/-- At every level of relations the keys of a filter are distinct, and targets of the scope or
unknown.  What stands on a scalar field, or on a relation without filters inside, is arbitrary. -/
inductive Keyed (root : Resource) : Scope → Object → Prop
  | level {scope : Scope} {filter : Object} (hdistinct : Entries.Distinct filter)
      (hkeys : ∀ key ∈ Entries.keys filter, TargetOrUnknown root scope key)
      (hbelow : ∀ field ∈ fieldsOf scope, ∀ relation, field.relation = some relation →
        ∀ operators, (field.target, .object operators) ∈ filter →
          ∀ pair ∈ innerFilters field operators, Keyed root relation.scope pair.2) :
      Keyed root scope filter

/-- What an entry of a filter becomes when rows are restored from it and compiled again. -/
def Compile.entryAgain? (scope : Scope) (entry : String × Json) : Option (String × Json) :=
  (group? entry.1 ((keyRows (fieldsOf scope) entry).filterMap part?)).map fun group =>
    (group.1, .object group.2)

/-- An unknown key has no rows. -/
theorem keyRows_unknown (hreach : Reaches root scope) {key : String}
    (h : ∀ field, Known root field → field.name ≠ key ∧ field.target ≠ key) (value : Json) :
    keyRows (fieldsOf scope) (key, value) = [] := by
  refine List.eq_nil_iff_forall_not_mem.2 fun row hrow => ?_
  obtain ⟨field, hlevels, hread, -⟩ := field_of_mem_keyRows hrow
  have hknown := (universe_known root).mem_levels hreach.known field hlevels
  obtain ⟨hname, htarget⟩ := h field hknown
  rcases cases_of_lookup hread with ⟨-, heq⟩ | ⟨-, heq | hfind⟩
  · exact htarget heq
  · exact hname heq
  · exact htarget (by simpa using List.find?_some hfind)

/-- The rows of a key write at the key. -/
theorem filterMap_fragment?_keyRows (hreach : Reaches root scope) {entry : String × Json}
    (h : TargetOrUnknown root scope entry.1) :
    (keyRows (fieldsOf scope) entry).filterMap fragment? =
      ((keyRows (fieldsOf scope) entry).filterMap part?).map fun part => (entry.1, part) := by
  obtain ⟨key, value⟩ := entry
  rcases h with ⟨field, hfield, rfl⟩ | hunknown
  · rw [keyRows_target hreach.proper hfield, List.map_filterMap]
    refine List.filterMap_congr fun row hrow => ?_
    exact fragment?_eq_part? (Condition.field?_eq_some.2 (subject_of_mem_headRows hrow))
  · rw [keyRows_unknown hreach hunknown]
    rfl

/-- A filter is restored and compiled again entry by entry. -/
theorem recompiled_eq_filterMap (hreach : Reaches root scope) (hdistinct : Entries.Distinct filter)
    (hkeys : ∀ key ∈ Entries.keys filter, TargetOrUnknown root scope key) :
    recompiled scope filter = filter.filterMap (entryAgain? scope) := by
  have hblocks : (filter.flatMap fun entry =>
      (keyRows (fieldsOf scope) entry).filterMap fragment?) =
        filter.flatMap fun entry =>
          ((keyRows (fieldsOf scope) entry).filterMap part?).map fun part => (entry.1, part) :=
    List.flatMap_congr fun entry hentry =>
      filterMap_fragment?_keyRows hreach (hkeys _ (Entries.mem_keys_of_mem hentry))
  rw [recompiled_eq hreach, compileRows_eq, List.filterMap_flatMap, hblocks,
    merge_blocks hdistinct, toFilter, List.map_filterMap]
  rfl

/-- A list from which some items are dropped and others replaced is the list itself if and only if
each item is. -/
theorem filterMap_eq_self_iff {α : Type} {f : α → Option α} {xs : List α} :
    xs.filterMap f = xs ↔ ∀ x ∈ xs, f x = some x := by
  induction xs with
  | nil => simp
  | cons x xs ih =>
    rw [List.forall_mem_cons]
    cases h : f x with
    | none =>
      -- what is left is shorter
      refine iff_of_false (fun heq => ?_) fun hall => absurd hall.1 (by simp)
      have hlength := congrArg List.length heq
      rw [List.filterMap_cons_none h, List.length_cons] at hlength
      have hle := List.length_filterMap_le f xs
      omega
    | some y =>
      rw [List.filterMap_cons_some h, List.cons.injEq, ih, Option.some_inj]

/-- An entry says which field it belongs to. -/
theorem eq_of_entry (hproper : scope.Proper) {field other : Field Scope}
    (hfield : field ∈ fieldsOf scope) (hother : other ∈ fieldsOf scope) {operators found : Object}
    (h : (field.target, Json.object operators) = (other.target, .object found)) :
    field = other ∧ operators = found := by
  obtain ⟨htarget, hvalue⟩ := Prod.mk.inj h
  exact ⟨eq_of_target hproper hfield hother htarget, Json.object.inj hvalue⟩

/-! ### Normal filters -/

/-- Operators as rows write them on a field: those of its type, filters below quantifiers, or the
filter inside a relation to one item. -/
inductive WrittenFor (field : Field Scope) (operators : Object) : Prop
  | scalar (hrelation : field.relation = none) (hwritten : WrittenOperators field.type operators)
  | toMany (hkind : field.kind? = some .toMany) (hne : operators ≠ [])
      (hinner : quantifiedBy (innerFilters field operators) = operators)
  | toOne (hkind : field.kind? = some .toOne) (hne : operators ≠ [])
      (hinner : innerFilters field operators = [(.related, operators)])

/-- Operators that rows write are not empty. -/
theorem WrittenFor.ne_nil {field : Field Scope} {operators : Object}
    (h : WrittenFor field operators) : operators ≠ [] := by
  cases h with
  | scalar _ hwritten => exact hwritten.ne_nil
  | toMany _ hne _ => exact hne
  | toOne _ hne _ => exact hne

/-- A filter that has at every level of relations operators as rows write them on the fields of the
scope, and nothing else. -/
inductive Normal : Scope → Object → Prop
  | level {scope : Scope} {filter : Object} (hdistinct : Entries.Distinct filter)
      (hentries : ∀ entry ∈ filter, ∃ field ∈ fieldsOf scope, ∃ operators,
        entry = (field.target, .object operators) ∧ WrittenFor field operators)
      (hbelow : ∀ field ∈ fieldsOf scope, ∀ relation, field.relation = some relation →
        ∀ operators, (field.target, .object operators) ∈ filter →
          ∀ pair ∈ innerFilters field operators, Normal relation.scope pair.2) :
      Normal scope filter

namespace Normal

/-- A normal filter has each key once. -/
theorem distinct (h : Normal scope filter) : Entries.Distinct filter := by
  cases h with
  | level hdistinct _ _ => exact hdistinct

/-- Keys of a normal filter are targets. -/
theorem target_of_key (h : Normal scope filter) {key : String} (hkey : key ∈ Entries.keys filter) :
    ∃ field ∈ fieldsOf scope, field.target = key := by
  obtain ⟨-, hentries, -⟩ := h
  obtain ⟨value, hmem⟩ := Entries.mem_keys.1 hkey
  obtain ⟨field, hfield, _, heq, -⟩ := hentries _ hmem
  exact ⟨field, hfield, (Prod.mk.inj heq).1.symm⟩

/-- The operators at each field of a normal filter are written for it. -/
theorem writtenFor (h : Normal scope filter) (hproper : scope.Proper) {field : Field Scope}
    (hfield : field ∈ fieldsOf scope) {operators : Object}
    (hentry : (field.target, .object operators) ∈ filter) : WrittenFor field operators := by
  obtain ⟨-, hentries, -⟩ := h
  obtain ⟨other, hother, _, heq, hwritten⟩ := hentries _ hentry
  obtain ⟨rfl, rfl⟩ := eq_of_entry hproper hfield hother heq
  exact hwritten

/-- Filters that are written one after the other. -/
theorem extend {more : Object} (h : Normal scope filter) (hmore : Normal scope more) :
    Normal scope (Entries.extend filter more) := by
  obtain ⟨hdistinct, hentries, hbelow⟩ := h
  obtain ⟨-, hentries', hbelow'⟩ := hmore
  refine .level (hdistinct.extend _) (fun entry hentry => ?_)
    fun field hfield relation hrelation operators hmem => ?_
  · exact (Entries.mem_extend hentry).elim (hentries entry) (hentries' entry)
  · exact (Entries.mem_extend hmem).elim (hbelow field hfield relation hrelation operators)
      (hbelow' field hfield relation hrelation operators)

/-- A normal filter is not taken for operators of a relation. -/
theorem innerFilters_eq (h : Normal scope filter) (hproper : scope.Proper) {field : Field Scope}
    (hkind : field.kind? = some .toOne) :
    innerFilters field filter = [(.related, filter)] := by
  refine innerFilters_implicit hkind fun operator hoperator => Entries.get?_eq_none.2 fun hkey => ?_
  obtain ⟨other, hother, htarget⟩ := h.target_of_key hkey
  exact target_ne_word hproper hother hoperator htarget

end Normal

/-! ### What comes out is normal -/

section Field

variable {field : Field Scope}

/-- What is found inside a field is written for it, and normal below it. -/
def NormalAt (field : Field Scope) (operators : Object) : Prop :=
  WrittenFor field operators ∧ ∀ relation, field.relation = some relation →
    ∀ pair ∈ innerFilters field operators, Normal relation.scope pair.2

/-- What rows on a scalar field write is normal there. -/
theorem normalAt_scalar (hscalar : field.isRelation = false) (hrelation : field.relation = none)
    {value : Json} (hne : (headRows field none value).filterMap part? ≠ []) :
    NormalAt field (united ((headRows field none value).filterMap part?)) := by
  refine ⟨.scalar hrelation (.united hne fun part hpart => ?_), fun relation h => ?_⟩
  · obtain ⟨row, hrow, hwrites⟩ := List.mem_filterMap.1 hpart
    exact writtenOperators_of_part? hscalar hrow hwrites
  · rw [hrelation] at h
    exact absurd h (by simp)

variable {relation : Relation Scope} {operators : Object}

/-- What rows on a relation to many items write is normal there, if it is normal below. -/
theorem normalAt_toMany (htype : field.isRelation = true)
    (hrelation : field.relation = some relation) (hkind : field.kind? = some .toMany)
    (hne : (headRows field none (.object operators)).filterMap part? ≠ [])
    (hbelow : ∀ pair ∈ innerFilters field operators,
      Normal relation.scope (recompiled relation.scope pair.2)) :
    NormalAt field (operatorsAgain field operators) := by
  rw [filterMap_part?_relation htype hrelation] at hne
  rw [operatorsAgain_toMany htype hrelation hkind]
  have hinner := innerFilters_quantifiedBy hkind operators (recompiled relation.scope)
  refine ⟨.toMany hkind (fun hnil => hne ?_) (congrArg quantifiedBy hinner),
    fun other hother pair hpair => ?_⟩
  · rw [quantifiedBy, List.map_eq_nil_iff, List.map_eq_nil_iff] at hnil
    rw [hnil, List.filterMap_nil]
  · obtain rfl := Option.some.inj (hrelation.symm.trans hother)
    rw [hinner] at hpair
    obtain ⟨before, hbefore, rfl⟩ := List.mem_map.1 hpair
    exact hbelow before hbefore

/-- Several filters inside a relation to one item are written one after the other. -/
theorem normalAt_toOne (hproper : relation.scope.Proper) (htype : field.isRelation = true)
    (hrelation : field.relation = some relation) (hkind : field.kind? = some .toOne)
    (hne : (headRows field none (.object operators)).filterMap part? ≠ [])
    (hbelow : ∀ pair ∈ innerFilters field operators,
      Normal relation.scope (recompiled relation.scope pair.2)) :
    NormalAt field (operatorsAgain field operators) := by
  have hnormal : Normal relation.scope (operatorsAgain field operators) ∧
      operatorsAgain field operators ≠ [] := by
    refine united_induction (motive := fun part => Normal relation.scope part ∧ part ≠ []) hne
      (fun _ h => h.1.distinct) (fun a b ha hb => ⟨ha.1.extend hb.1, Entries.extend_ne_nil ha.2 b⟩)
      fun part hpart => ?_
    rw [filterMap_part?_relation htype hrelation] at hpart
    obtain ⟨pair, hpair, hwrites⟩ := List.mem_filterMap.1 hpart
    rw [relationFragment?, hkind] at hwrites
    simp only [Option.ite_none_left_eq_some, Option.some.injEq] at hwrites
    obtain ⟨hnonempty, rfl⟩ := hwrites
    exact ⟨hbelow pair hpair, fun hnil => hnonempty (List.isEmpty_iff.2 hnil)⟩
  have hinner := hnormal.1.innerFilters_eq hproper hkind
  refine ⟨.toOne hkind hnormal.2 hinner, fun other hother pair hpair => ?_⟩
  obtain rfl := Option.some.inj (hrelation.symm.trans hother)
  rw [hinner, List.mem_singleton] at hpair
  rw [hpair]
  exact hnormal.1

end Field

/-- An entry that comes out belongs to a field of the scope, and has what is normal there. -/
theorem exists_normalAt (hreach : Reaches root scope) {entry : String × Json}
    (hkey : TargetOrUnknown root scope entry.1)
    (hbelow : ∀ field ∈ fieldsOf scope, ∀ relation, field.relation = some relation →
      ∀ operators, (field.target, .object operators) = entry →
        ∀ pair ∈ innerFilters field operators,
          Normal relation.scope (recompiled relation.scope pair.2))
    {again : String × Json} (h : entryAgain? scope entry = some again) :
    ∃ field ∈ fieldsOf scope, ∃ operators, again = (field.target, .object operators) ∧
      NormalAt field operators := by
  obtain ⟨key, value⟩ := entry
  obtain ⟨group, hgroup, rfl⟩ := Option.map_eq_some_iff.1 h
  rw [group?, Option.ite_none_left_eq_some, Option.some.injEq] at hgroup
  obtain ⟨hne, rfl⟩ := hgroup
  rw [List.isEmpty_iff] at hne
  rcases hkey with ⟨field, hfield, rfl⟩ | hunknown
  · rw [keyRows_target hreach.proper hfield] at hne ⊢
    refine ⟨field, hfield, _, rfl, ?_⟩
    have htype := isRelation_eq hreach.proper hfield
    cases hrelation : field.relation with
    | none =>
      rw [hrelation, Option.isSome_none] at htype
      exact normalAt_scalar htype hrelation hne
    | some relation =>
      rw [hrelation, Option.isSome_some] at htype
      cases value with
      | object operators =>
        have hinside := hbelow field hfield relation hrelation operators rfl
        have hkind := kind?_eq_some hrelation
        cases hk : relation.kind with
        | toMany =>
          rw [hk] at hkind
          exact normalAt_toMany htype hrelation hkind hne hinside
        | toOne =>
          rw [hk] at hkind
          exact normalAt_toOne (hreach.step hfield hrelation).proper htype hrelation hkind hne
            hinside
      -- what is no object has no rows on a relation
      | _ =>
        refine absurd ?_ hne
        unfold headRows
        rw [if_pos htype]
        rfl
  · rw [keyRows_unknown hreach hunknown] at hne
    exact absurd rfl hne

/-- What comes out when a filter is restored and compiled again is normal. -/
theorem normal_recompiled (h : Keyed root scope filter) (hreach : Reaches root scope) :
    Normal scope (recompiled scope filter) := by
  induction h with
  | @level scope filter hdistinct hkeys hbelow ih =>
    have hentries : ∀ again ∈ recompiled scope filter, ∃ field ∈ fieldsOf scope, ∃ operators,
        again = (field.target, .object operators) ∧ NormalAt field operators := by
      intro again hagain
      rw [recompiled_eq_filterMap hreach hdistinct hkeys] at hagain
      obtain ⟨entry, hentry, hsome⟩ := List.mem_filterMap.1 hagain
      refine exists_normalAt hreach (hkeys _ (Entries.mem_keys_of_mem hentry)) ?_ hsome
      rintro field hfield relation hrelation operators rfl pair hpair
      exact ih field hfield relation hrelation operators hentry pair hpair
        (hreach.step hfield hrelation)
    refine .level (distinct_compileRows _) (fun again hagain => ?_)
      fun field hfield relation hrelation operators hmem => ?_
    · obtain ⟨field, hfield, operators, heq, hnormal⟩ := hentries again hagain
      exact ⟨field, hfield, operators, heq, hnormal.1⟩
    · obtain ⟨other, hother, _, heq, hnormal⟩ := hentries _ hmem
      obtain ⟨rfl, rfl⟩ := eq_of_entry hreach.proper hfield hother heq
      exact hnormal.2 relation hrelation

/-! ### Normal filters that come out again -/

/-- Operators stand on a scalar field of a type at some level of relations of a filter. -/
inductive Stands : Scope → Object → FieldType → Object → Prop
  | here {scope : Scope} {filter operators : Object} {field : Field Scope}
      (hfield : field ∈ fieldsOf scope) (hrelation : field.relation = none)
      (hentry : (field.target, .object operators) ∈ filter) :
      Stands scope filter field.type operators
  | inside {scope : Scope} {filter operators found : Object} {field : Field Scope}
      {relation : Relation Scope} {pair : Operator × Object} {type : FieldType}
      (hfield : field ∈ fieldsOf scope) (hrelation : field.relation = some relation)
      (hentry : (field.target, .object operators) ∈ filter)
      (hpair : pair ∈ innerFilters field operators)
      (hfound : Stands relation.scope pair.2 type found) : Stands scope filter type found

/-- An entry comes out again if and only if its operators do. -/
theorem entryAgain?_eq_self_iff (hproper : scope.Proper) {field : Field Scope}
    (hfield : field ∈ fieldsOf scope) {operators : Object} (hne : operators ≠ []) :
    entryAgain? scope (field.target, .object operators) =
        some (field.target, .object operators) ↔
      operatorsAgain field operators = operators := by
  rw [entryAgain?, keyRows_target hproper hfield, operatorsAgain, group?]
  split
  · rename_i hempty
    rw [List.isEmpty_iff.1 hempty]
    exact iff_of_false (by simp) fun hnil => hne hnil.symm
  · rw [Option.map_some, Option.some_inj, Prod.mk.injEq, Json.object.injEq]
    exact and_iff_right rfl

/-- Operators as rows write them on a field come out again if and only if their range is kept and
the filters inside them come out again. -/
theorem operatorsAgain_eq_self_iff {field : Field Scope} {operators : Object}
    (htype : field.isRelation = field.relation.isSome) (h : WrittenFor field operators)
    (hdoubles : field.relation = none → DoublesReadBack operators) :
    operatorsAgain field operators = operators ↔
      (field.relation = none → RangeKept field.type operators) ∧
        ∀ relation, field.relation = some relation → ∀ pair ∈ innerFilters field operators,
          recompiled relation.scope pair.2 = pair.2 := by
  cases hrelation : field.relation with
  | none =>
    rw [hrelation, Option.isSome_none] at htype
    cases h with
    | scalar _ hwritten =>
      rw [operatorsAgain_scalar htype, written_chosen_iff hwritten (hdoubles hrelation)]
      exact ⟨fun hkept => ⟨fun _ => hkept, fun _ hsome => absurd hsome (by simp)⟩,
        fun hkept => hkept.1 rfl⟩
    | toMany hkind _ _ => exact absurd hkind (by rw [Field.kind?, hrelation]; simp)
    | toOne hkind _ _ => exact absurd hkind (by rw [Field.kind?, hrelation]; simp)
  | some relation =>
    rw [hrelation, Option.isSome_some] at htype
    have hsplit : (some relation = none → RangeKept field.type operators) ∧
        (∀ other, some relation = some other → ∀ pair ∈ innerFilters field operators,
          recompiled other.scope pair.2 = pair.2) ↔
        ∀ pair ∈ innerFilters field operators, recompiled relation.scope pair.2 = pair.2 := by
      simp
    rw [hsplit]
    cases h with
    | scalar hnone _ => exact absurd (hrelation.symm.trans hnone) (by simp)
    | toMany hkind _ hinner =>
      rw [operatorsAgain_toMany htype hrelation hkind]
      nth_rewrite 2 [← hinner]
      rw [quantifiedBy, quantifiedBy, List.map_map, List.map_inj_left]
      simp
    | toOne hkind _ hinner =>
      rw [operatorsAgain_single htype hrelation hkind hinner, hinner, List.forall_mem_singleton]

/-- A normal filter comes out again, keys in order, if and only if each of its ranges is kept. -/
theorem recompiled_eq_self_iff (h : Normal scope filter) (hreach : Reaches root scope)
    (hdoubles : ∀ type operators, Stands scope filter type operators → DoublesReadBack operators) :
    recompiled scope filter = filter ↔
      ∀ type operators, Stands scope filter type operators → RangeKept type operators := by
  induction h with
  | @level scope filter hdistinct hentries hbelow ih =>
    have hnormal : Normal scope filter := .level hdistinct hentries hbelow
    have hkeys : ∀ key ∈ Entries.keys filter, TargetOrUnknown root scope key :=
      fun key hkey => .inl (hnormal.target_of_key hkey)
    -- an entry stays if its range is kept and all filters inside it stay
    have hentry_iff : ∀ {field operators}, field ∈ fieldsOf scope →
        (field.target, .object operators) ∈ filter →
          (entryAgain? scope (field.target, .object operators) =
              some (field.target, .object operators) ↔
            (field.relation = none → RangeKept field.type operators) ∧
              ∀ relation, field.relation = some relation → ∀ pair ∈ innerFilters field operators,
                recompiled relation.scope pair.2 = pair.2) := by
      intro field operators hfield hentry
      have hwritten := hnormal.writtenFor hreach.proper hfield hentry
      rw [entryAgain?_eq_self_iff hreach.proper hfield hwritten.ne_nil]
      exact operatorsAgain_eq_self_iff (isRelation_eq hreach.proper hfield) hwritten
        fun hrelation => hdoubles _ _ (.here hfield hrelation hentry)
    have hinside : ∀ {field relation operators pair} (_ : field ∈ fieldsOf scope)
        (_ : field.relation = some relation) (_ : (field.target, .object operators) ∈ filter)
        (_ : pair ∈ innerFilters field operators),
          (recompiled relation.scope pair.2 = pair.2 ↔
            ∀ type found, Stands relation.scope pair.2 type found → RangeKept type found) := by
      intro field relation operators pair hfield hrelation hentry hpair
      exact ih field hfield relation hrelation operators hentry pair hpair
        (hreach.step hfield hrelation)
        fun type found hfound => hdoubles _ _ (.inside hfield hrelation hentry hpair hfound)
    rw [recompiled_eq_filterMap hreach hdistinct hkeys, filterMap_eq_self_iff]
    constructor
    · intro hagain type found hstands
      cases hstands with
      | here hfield hrelation hentry =>
        exact ((hentry_iff hfield hentry).1 (hagain _ hentry)).1 hrelation
      | inside hfield hrelation hentry hpair hfound =>
        have hself := ((hentry_iff hfield hentry).1 (hagain _ hentry)).2 _ hrelation _ hpair
        exact (hinside hfield hrelation hentry hpair).1 hself _ _ hfound
    · intro hkept entry hentry
      obtain ⟨field, hfield, operators, rfl, -⟩ := hentries entry hentry
      refine (hentry_iff hfield hentry).2 ⟨fun hrelation => ?_, ?_⟩
      · exact hkept _ _ (.here hfield hrelation hentry)
      · intro relation hrelation pair hpair
        refine (hinside hfield hrelation hentry hpair).2 fun type found hfound => ?_
        exact hkept _ _ (.inside hfield hrelation hentry hpair hfound)

/-! ### Normalising twice -/

/-- The filter of the rows that a filter is restored to; no filter counts as the empty one. -/
def normalized (resource : Resource) (filter : Object) : Object :=
  (compile (restore (fields resource) filter)).getD []

/-- Normalizing is compiling again from the scope of the resource. -/
theorem normalized_eq (resource : Resource) (filter : Object) :
    normalized resource filter = recompiled (Scope.root resource) filter :=
  getD_compile _

/-- Normalising is idempotent but for ranges: a filter with keys that are targets or unknown is
normalised once and for all if and only if what comes out keeps its ranges. -/
theorem normalized_normalized_iff (resource : Resource)
    (h : Keyed resource (.root resource) filter)
    (hdoubles : ∀ type operators,
      Stands (.root resource) (normalized resource filter) type operators →
        DoublesReadBack operators) :
    normalized resource (normalized resource filter) = normalized resource filter ↔
      ∀ type operators, Stands (.root resource) (normalized resource filter) type operators →
        RangeKept type operators := by
  have hnormal := normal_recompiled h .start
  rw [← normalized_eq] at hnormal
  rw [normalized_eq resource (normalized resource filter)]
  exact recompiled_eq_self_iff hnormal .start hdoubles

/-! ### An example -/

/-- From eighteen to sixty-five, but not thirty. -/
def boundedFilter : Object :=
  [("age", .object [("between", .string "18,65"), ("not", .string "30")])]

/-- The range of ages is normalized to its two bounds. -/
theorem normalized_boundedFilter :
    normalized .staff boundedFilter = [("age", .object [("gte", .number (.integer 18)),
      ("lte", .number (.integer 65)), ("not", .number (.integer 30))])] := by
  have hrestored : restore (fields .staff) boundedFilter =
      [⟨none, .field (.scalar .number "age" "Idade"), "entre", .text "18,65", none⟩,
        ⟨none, .field (.scalar .number "age" "Idade"), "diferente de", .text "30", none⟩] := rfl
  rw [normalized, hrestored, getD_compile, compileRows_eq]
  unfold fragment? fragmentWith?
  rfl

/-- The age is no relation. -/
theorem relation_of_age {field : Field Scope} (hfield : field ∈ fieldsOf (.root .staff))
    (htarget : field.target = "age") : field.relation = none := by
  have hage : (.scalar .number "age" "Idade" : Field Scope) ∈ fieldsOf (.root .staff) := by
    simp [fieldsOf, Scope.root]
  rw [eq_of_target (Scope.proper_root .staff) hfield hage htarget]
  rfl

/-- The filter on ages has the targets of staff as keys. -/
theorem keyed_boundedFilter : Keyed .staff (.root .staff) boundedFilter := by
  refine .level (List.nodup_singleton _) (fun key hkey => .inl ?_) ?_
  · rw [List.mem_singleton.1 hkey]
    exact ⟨.scalar .number "age" "Idade", by simp [fieldsOf, Scope.root], rfl⟩
  · intro field hfield relation hrelation operators hmem
    have htarget := (Prod.mk.inj (List.mem_singleton.1 hmem)).1
    rw [relation_of_age hfield htarget] at hrelation
    exact absurd hrelation (by simp)

/-- What stands beside the range is lost when the filter is normalised once more. -/
theorem boundedFilter_not_idempotent :
    Keyed .staff (.root .staff) boundedFilter ∧
      normalized .staff boundedFilter = [("age", .object [("gte", .number (.integer 18)),
        ("lte", .number (.integer 65)), ("not", .number (.integer 30))])] ∧
      normalized .staff (normalized .staff boundedFilter) =
        [("age", .object [("gte", .number (.integer 18)), ("lte", .number (.integer 65))])] ∧
      normalized .staff (normalized .staff boundedFilter) ≠ normalized .staff boundedFilter := by
  have htwice : normalized .staff (normalized .staff boundedFilter) =
      [("age", .object [("gte", .number (.integer 18)), ("lte", .number (.integer 65))])] := by
    rw [normalized_boundedFilter]
    have hrestored : restore (fields .staff) [("age", .object [("gte", .number (.integer 18)),
        ("lte", .number (.integer 65)), ("not", .number (.integer 30))])] =
          [⟨none, .field (.scalar .number "age" "Idade"), "entre", .text "18,65", none⟩] := rfl
    rw [normalized, hrestored, getD_compile, compileRows_eq]
    unfold fragment? fragmentWith?
    rfl
  refine ⟨keyed_boundedFilter, normalized_boundedFilter, htwice, ?_⟩
  rw [htwice, normalized_boundedFilter]
  simp

/-- Normalizing the filter on ages again changes nothing exactly if its range is kept. -/
theorem boundedFilter_normalized_iff :
    normalized .staff (normalized .staff boundedFilter) = normalized .staff boundedFilter ↔
      ∀ type operators,
        Stands (.root .staff) (normalized .staff boundedFilter) type operators →
          RangeKept type operators := by
  refine normalized_normalized_iff .staff keyed_boundedFilter fun type operators hstands => ?_
  rw [normalized_boundedFilter] at hstands
  cases hstands with
  | here _ _ hentry =>
    obtain ⟨-, hvalue⟩ := Prod.mk.inj (List.mem_singleton.1 hentry)
    obtain rfl := Json.object.inj hvalue
    intro word d hdouble
    exact absurd hdouble (by simp)
  | inside hfield hrelation hentry _ _ =>
    have htarget := (Prod.mk.inj (List.mem_singleton.1 hentry)).1
    rw [relation_of_age hfield htarget] at hrelation
    exact absurd hrelation (by simp)

end QueryFilter
