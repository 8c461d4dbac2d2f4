import QueryFilter.Proofs.Catalog.Paths
import QueryFilter.Proofs.Filter.Normal

/-!
# The mode of texts is written and never read

A filter that was edited by hand may say about any scalar field, at any depth of relations, whether
case matters there.  `modelessEntries` leaves such entries out.

Nothing is lost by that: filters that differ in these entries only are normalised to the same filter
(`recompiled_modelessEntries`).  In what comes out each group of a text field says that case does
not matter, and no other scalar group says anything about it (`mode_of_standsAt`).
-/

namespace QueryFilter

open Catalog Compile Restore

/-! ### Leaving modes out -/

/-- The scope of the keys below a key, as a filter is read: that of a relation, or below a word of
relations the same one.  Below other keys there are no keys of fields. -/
def scopeBelow (scope : Scope) (key : String) : Option Scope :=
  match lookup (fieldsOf scope) (fieldsOf scope) key key with
  | some field => field.relation.map Relation.scope
  | none => if (Operator.ofWord? key).any Operator.isRelation then some scope else none

mutual

/-- A value without modes, where the keys below it are those of a scope or no keys of fields. -/
def Json.modeless : Option Scope → Json → Json
  | some scope, .object entries => .object (modelessEntries scope entries)
  | none, .object entries => .object (Entries.without modeKey entries)
  | _, other => other

/-- A filter without the modes directly below its scalar fields, at any depth of relations. -/
def modelessEntries (scope : Scope) : List (String × Json) → Object
  | [] => []
  | (key, value) :: rest =>
    (key, value.modeless (scopeBelow scope key)) :: modelessEntries scope rest

end

/-- An object of fields is rid of modes field by field. -/
theorem Json.modeless_object (scope : Scope) (entries : Object) :
    (Json.object entries).modeless (some scope) = .object (modelessEntries scope entries) := by
  -- By rewriting: `rfl` would have every user of the lemma unfold the mutual recursion again.
  rw [Json.modeless]

/-- An object of operators is rid of its mode. -/
theorem Json.modeless_operators (entries : Object) :
    (Json.object entries).modeless none = .object (Entries.without modeKey entries) := by
  rw [Json.modeless]

/-- The entries of a value without modes are its entries without modes. -/
theorem entries_modeless (scope : Scope) (value : Json) :
    (value.modeless (some scope)).entries = modelessEntries scope value.entries := by
  cases value <;> rfl

/-- Entries are rid of modes one by one. -/
theorem modelessEntries_eq_map (scope : Scope) (filter : Object) :
    modelessEntries scope filter =
      filter.map fun entry => (entry.1, entry.2.modeless (scopeBelow scope entry.1)) := by
  induction filter with
  | nil => rfl
  | cons entry filter ih => rw [modelessEntries, ih, List.map_cons]

/-- At a key stands the value from before, without modes. -/
theorem get?_modelessEntries (scope : Scope) (filter : Object) (key : String) :
    Entries.get? (modelessEntries scope filter) key =
      (Entries.get? filter key).map (Json.modeless (scopeBelow scope key)) := by
  induction filter with
  | nil => rfl
  | cons entry filter ih =>
    obtain ⟨k, value⟩ := entry
    rw [modelessEntries, Entries.get?_cons, Entries.get?_cons, ih]
    by_cases hk : k = key
    · rw [if_pos hk, if_pos hk, hk, Option.map_some]
    · rw [if_neg hk, if_neg hk]

/-! ### Scalar fields -/

/-- The rows of a scalar field do not depend on a mode. -/
theorem scalarRows_modeless {σ : Type} (type : FieldType) (value : Json) :
    (scalarRows type (value.modeless none) : List (String × Value σ)) = scalarRows type value := by
  cases value with
  | object operators =>
    have hrange : (range? type (Entries.without modeKey operators) : Option (String × Value σ)) =
        range? type operators := by
      rw [range?, range?, Entries.get?_without (word_ne_modeKey .gte),
        Entries.get?_without (word_ne_modeKey .lte)]
    rw [Json.modeless_operators, scalarRows, scalarRows, hrange,
      Entries.filterMap_without (single?_modeKey type)]
  | _ => rfl

/-! ### Relations -/

variable {root : Resource} {scope : Scope}

/-- No known field is called by a word of relations. -/
theorem Catalog.Known.name_ne_word {field : Field Scope} (h : Known root field)
    {operator : Operator} (hoperator : operator.isRelation = true) :
    field.name ≠ operator.word := by
  intro hname
  have hwords : ∀ operator ∈ Operator.all, operator.isRelation = true →
      Field.IsSegment operator.word := by decide
  have hdata : ∀ resource, ∀ field ∈ fields resource, ∀ operator ∈ Operator.all,
      operator.isRelation = true → field.name ≠ operator.word := by
    intro resource
    cases resource <;> decide
  have hmem := Operator.mem_all operator
  have hroot := h.mem_fields (hname ▸ hwords operator hmem hoperator)
  exact hdata root field hroot operator hmem hoperator hname

/-- No field is found for a word of relations. -/
theorem lookup_word (hreach : Reaches root scope) {operator : Operator}
    (hoperator : operator.isRelation = true) :
    lookup (fieldsOf scope) (fieldsOf scope) operator.word operator.word = none := by
  refine Option.eq_none_iff_forall_ne_some.2 fun field hfield => ?_
  have hknown := (universe_known root).known_of_lookup hreach.known hreach.known hfield
  have htarget : field.target ≠ operator.word := by
    obtain ⟨own, hown, hmem⟩ := hknown
    exact target_ne_word hown.proper hmem hoperator
  rcases cases_of_lookup hfield with ⟨-, heq⟩ | ⟨-, heq | hfound⟩
  · exact htarget heq
  · exact hknown.name_ne_word hoperator heq
  · exact htarget (by simpa using List.find?_some hfound)

/-- Below an operator of relations the fields are those of the same scope. -/
theorem scopeBelow_word (hreach : Reaches root scope) {operator : Operator}
    (hoperator : operator.isRelation = true) : scopeBelow scope operator.word = some scope := by
  rw [scopeBelow, lookup_word hreach hoperator]
  simp only [Operator.ofWord?_word, Option.any_some, hoperator, if_true]

/-- Filters below quantifiers are the same ones, without modes. -/
theorem quantified_modelessEntries (hreach : Reaches root scope) (operators : Object) :
    quantified (modelessEntries scope operators) =
      (quantified operators).map fun pair => (pair.1, modelessEntries scope pair.2) := by
  have hrelation : ∀ operator ∈ quantifiers, operator.isRelation = true := by decide
  rw [quantified, quantified, List.map_filterMap]
  refine List.filterMap_congr fun operator hoperator => ?_
  rw [get?_modelessEntries, scopeBelow_word hreach (hrelation operator hoperator), Option.map_map,
    Option.map_map]
  refine congrArg (Option.map · _) (funext fun value => ?_)
  exact congrArg (Prod.mk operator) (entries_modeless scope value)

/-- The filters inside a relation are read without modes where the object of the relation is. -/
theorem innerFilters_modelessEntries (hreach : Reaches root scope) (field : Field Scope)
    (operators : Object) : innerFilters field (modelessEntries scope operators) =
      (innerFilters field operators).map fun pair => (pair.1, modelessEntries scope pair.2) := by
  rw [innerFilters_eq, innerFilters_eq, quantified_modelessEntries hreach, get?_modelessEntries,
    scopeBelow_word hreach rfl, List.isEmpty_map]
  split
  · rfl
  · cases Entries.get? operators Operator.related.word with
    | some inner => simp only [Option.map_some, entries_modeless, List.map_cons, List.map_nil]
    | none =>
      simp only [Option.map_none]
      split <;> rfl

/-! ### Filters -/

/-- What the rows on a relation write. -/
theorem filterMap_headRows_relation {field : Field Scope} {relation : Relation Scope}
    (htype : field.isRelation = true) (hrelation : field.relation = some relation)
    (operators : Object) : (headRows field none (.object operators)).filterMap fragment? =
      ((innerFilters field operators).filterMap fun pair =>
        relationFragment? field pair.1 (recompiled relation.scope pair.2)).map
          fun part => (field.target, part) := by
  rw [← filterMap_part?_relation htype hrelation, List.map_filterMap]
  refine List.filterMap_congr fun row hrow => ?_
  exact fragment?_eq_part? (Condition.field?_eq_some.2 (subject_of_mem_headRows hrow))

/-- What the rows on a relation write does not depend on modes, if what the filters inside it are
normalised to does not. -/
theorem filterMap_headRows_modeless {field : Field Scope} {relation : Relation Scope}
    (hreach : Reaches root relation.scope) (htype : field.isRelation = true)
    (hrelation : field.relation = some relation) {value : Json}
    (hbelow : ∀ inner, (Json.object inner).size ≤ value.size →
      recompiled relation.scope (modelessEntries relation.scope inner) =
        recompiled relation.scope inner) :
    (headRows field none (value.modeless (some relation.scope))).filterMap fragment? =
      (headRows field none value).filterMap fragment? := by
  cases value with
  | object operators =>
    rw [Json.modeless_object, filterMap_headRows_relation htype hrelation,
      filterMap_headRows_relation htype hrelation, innerFilters_modelessEntries hreach,
      List.filterMap_map]
    refine congrArg (List.map _) (List.filterMap_congr fun pair hpair => ?_)
    rw [Function.comp_apply, hbelow pair.2 (size_innerFilters_le hpair)]
  | _ => rfl

/-- What the rows of a key write does not depend on modes, if what the filters inside it are
normalised to does not. -/
theorem filterMap_keyRows_modeless (hreach : Reaches root scope) {key : String} {value : Json}
    (hbelow : ∀ below inner, Reaches root below → (Json.object inner).size ≤ value.size →
      recompiled below (modelessEntries below inner) = recompiled below inner) :
    (keyRows (fieldsOf scope) (key, value.modeless (scopeBelow scope key))).filterMap fragment? =
      (keyRows (fieldsOf scope) (key, value)).filterMap fragment? := by
  unfold keyRows scopeBelow
  cases hlookup : lookup (fieldsOf scope) (fieldsOf scope) key key with
  | none => rfl
  | some field =>
    obtain ⟨own, hown, hmem⟩ :=
      (universe_known root).known_of_lookup hreach.known hreach.known hlookup
    have htype := isRelation_eq hown.proper hmem
    simp only [Option.map_some, Option.getD_some]
    cases hrelation : field.relation with
    | none =>
      rw [hrelation, Option.isSome_none] at htype
      rw [Option.map_none, headRows_scalar htype, headRows_scalar htype, scalarRows_modeless]
    | some relation =>
      rw [hrelation, Option.isSome_some] at htype
      have hstep := hown.step hmem hrelation
      exact filterMap_headRows_modeless hstep htype hrelation fun inner =>
        hbelow relation.scope inner hstep

/-- A filter is normalised to the same filter with and without modes. -/
theorem recompiled_modelessEntries (hreach : Reaches root scope) (filter : Object) :
    recompiled scope (modelessEntries scope filter) = recompiled scope filter := by
  induction hsize : (Json.object filter).size using Nat.strongRecOn generalizing scope filter with
  | ind size ih =>
    rw [recompiled_eq hreach, recompiled_eq hreach, compileRows_eq, compileRows_eq,
      modelessEntries_eq_map, List.flatMap_map, List.filterMap_flatMap, List.filterMap_flatMap]
    congr 2
    refine List.flatMap_congr fun entry hentry => ?_
    refine filterMap_keyRows_modeless hreach fun below inner hbelow hle => ?_
    have hsmaller : (Json.object inner).size < size :=
      hsize ▸ Nat.lt_of_le_of_lt hle (Json.size_lt_of_mem hentry)
    exact ih _ hsmaller hbelow inner rfl

/-! ### The modes that are written -/

/-- A value stands in a filter at the target of a field, at some depth of relations. -/
inductive StandsAt (root : Resource) (field : Field Scope) (value : Json) : Object → Prop
  | here {filter : Object} (hfield : Known root field) (hmem : (field.target, value) ∈ filter) :
      StandsAt root field value filter
  | toMany {filter operators inner : Object} {first : Field Scope} {word : String}
      (hfirst : Known root first) (hkind : first.kind? = some .toMany)
      (hmem : (first.target, .object operators) ∈ filter)
      (hword : (word, .object inner) ∈ operators) (h : StandsAt root field value inner) :
      StandsAt root field value filter
  | toOne {filter inner : Object} {first : Field Scope} (hfirst : Known root first)
      (hkind : first.kind? = some .toOne) (hmem : (first.target, .object inner) ∈ filter)
      (h : StandsAt root field value inner) : StandsAt root field value filter

/-- What stands below the target of a field fits the field. -/
theorem EntryWellFormed.fitsField {field : Field Scope} {value : Json}
    (h : EntryWellFormed root field.target value) (hfield : Known root field) :
    ∃ operators, value = .object operators ∧ FitsField root field.type field.kind? operators := by
  obtain ⟨other, operators, hother, htarget, hvalue, hfits⟩ := entryWellFormed_iff.1 h
  obtain ⟨htype, hkind⟩ := hother.same_kind hfield htarget
  rw [htype, hkind] at hfits
  exact ⟨operators, hvalue, hfits⟩

/-- In a well-formed filter a scalar group says that case does not matter if it is one of a text
field, and says nothing about it otherwise. -/
theorem mode_of_standsAt {field : Field Scope} (hscalar : field.relation = none) {value : Json}
    {filter : Object} (hentries : ∀ entry ∈ filter, EntryWellFormed root entry.1 entry.2)
    (h : StandsAt root field value filter) :
    ∃ operators, value = .object operators ∧ ∀ mode, (modeKey, mode) ∈ operators ↔
      field.type = .text ∧ mode = .string insensitive := by
  induction h with
  | here hfield hmem =>
    obtain ⟨operators, hvalue, hfits⟩ := (hentries _ hmem).fitsField hfield
    rw [kind?_eq_none.2 hscalar] at hfits
    exact ⟨operators, hvalue, OperatorsFor.mode hfits⟩
  | toMany hfirst hkind hmem hword _ ih =>
    obtain ⟨operators, hvalue, hfits⟩ := (hentries _ hmem).fitsField hfirst
    obtain rfl := Json.object.inj hvalue
    rw [hkind] at hfits
    exact ih (hfits.2 _ hword)
  | toOne hfirst hkind hmem _ ih =>
    obtain ⟨inner, hvalue, hfits⟩ := (hentries _ hmem).fitsField hfirst
    obtain rfl := Json.object.inj hvalue
    rw [hkind] at hfits
    exact ih hfits.2.2

/-! ### Normalised filters -/

/-- Filters that differ in modes of scalar fields only are normalised to the same filter, in which
exactly the groups of text fields have a mode, and each the same one. -/
theorem normalized_eq_of_modeless_eq (resource : Resource) {f g : Object}
    (h : modelessEntries (.root resource) f = modelessEntries (.root resource) g) :
    normalized resource f = normalized resource g ∧
      ∀ field value, field.relation = none → StandsAt resource field value (normalized resource f) →
        ∃ operators, value = .object operators ∧ ∀ mode, (modeKey, mode) ∈ operators ↔
          field.type = .text ∧ mode = .string insensitive := by
  have hreach : Reaches resource (.root resource) := .start
  have hsame : recompiled (Scope.root resource) f = recompiled (Scope.root resource) g := by
    rw [← recompiled_modelessEntries hreach f, h, recompiled_modelessEntries hreach g]
  rw [normalized_eq, normalized_eq]
  refine ⟨hsame, fun field value hscalar hstands => ?_⟩
  exact mode_of_standsAt hscalar (wellFormed_recompiled hreach f).2 hstands

/-- Modes of any kind at three depths, where they are expected and where they are not. -/
theorem normalized_with_modes :
    let f : Object := [("age", .object [("mode", .null), ("gt", .ofInt 18)]),
      ("company", .object
        [("name", .object [("contains", .string "acme")]),
          ("staff", .object [("some", .object
            [("email", .object [("endsWith", .string ".org"), ("mode", .string "default")])])])])]
    let g : Object := [("age", .object [("gt", .ofInt 18)]),
      ("company", .object
        [("name", .object [("mode", .object []), ("contains", .string "acme")]),
          ("staff", .object [("some", .object
            [("email", .object [("endsWith", .string ".org")])])])])]
    modelessEntries (.root .staff) f = modelessEntries (.root .staff) g ∧
      normalized .staff f = normalized .staff g ∧
        ∀ field value, field.relation = none → StandsAt .staff field value (normalized .staff f) →
          ∃ operators, value = .object operators ∧ ∀ mode, (modeKey, mode) ∈ operators ↔
            field.type = .text ∧ mode = .string insensitive := by
  intro f g
  let employer : Scope := ⟨.companies, "company__"⟩
  let colleagues : Scope := ⟨.staff, "company__staff__"⟩
  have hage : scopeBelow (.root .staff) "age" = none := by decide
  have hcompany : scopeBelow (.root .staff) "company" = some employer := by decide
  have hname : scopeBelow employer "name" = none := by decide
  have hstaff : scopeBelow employer "staff" = some colleagues := by decide
  have hreach : Reaches .staff colleagues :=
    .step (.step .start companyField_mem rfl) colleaguesField_mem rfl
  have hsome : scopeBelow colleagues "some" = some colleagues :=
    @scopeBelow_word _ _ hreach .someRelated rfl
  have hemail : scopeBelow colleagues "email" = none := by decide
  have hsame : modelessEntries (.root .staff) f = modelessEntries (.root .staff) g := by
    simp only [f, g, modelessEntries_eq_map, List.map_cons, List.map_nil, hage, hcompany,
      Json.modeless_object, Json.modeless_operators, hname, hstaff, hsome, hemail]
    rfl
  exact ⟨hsame, normalized_eq_of_modeless_eq .staff hsame⟩

end QueryFilter
