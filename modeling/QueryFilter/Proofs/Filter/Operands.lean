import QueryFilter.Proofs.Filter.InScope
import QueryFilter.Proofs.Filter.Scalar
import QueryFilter.Proofs.Query.Lasting

/-!
# Operands of a filter

An operand stands in a filter at a path of targets and operators (`OperandAt`).  A filter that
grounded rows are compiled to branches down to its operands (`Grounded.branch`), so that nothing but
an operand can keep it from being read back.  The operands are found in the query string of the
filter, each at its path and spelled out, if and only if all of them last (`reread_operands_iff`).
-/

namespace QueryFilter

open Catalog Compile Restore

/-! ### Operands and branches -/

/-- An operand stands at a path in a filter, the last key of which is its operator.  A filter below
an operator of a relation is no operand, unless it is empty. -/
inductive OperandAt : Object → List String → Json → Prop
  | here {filter : Object} {operator : Operator} {operand : Json}
      (hmem : (operator.word, operand) ∈ filter)
      (hplain : operator.isRelation = true → operand.entries = []) :
      OperandAt filter [operator.word] operand
  | inside {filter inner : Object} {key : String} {path : List String} {operand : Json}
      (hmem : (key, .object inner) ∈ filter) (hinner : OperandAt inner path operand) :
      OperandAt filter (key :: path) operand

/-- A key with its value is an operator with an operand, it says that case does not matter, or it
stands above such keys. -/
inductive Branch : String → Json → Prop
  | operand (operator : Operator) {operand : Json}
      (hplain : operator.isRelation = true → operand.entries = []) : Branch operator.word operand
  | mode : Branch modeKey (.string insensitive)
  | inside {key : String} {inner : Object} (hkey : key ≠ "") (hdistinct : Entries.Distinct inner)
      (hinner : ∀ entry ∈ inner, Branch entry.1 entry.2) : Branch key (.object inner)

/-- All operands of a filter last. -/
def OperandsLast (filter : Object) : Prop :=
  ∀ path operand, OperandAt filter path operand → operand.Lasts

/-- An operand stays where it is when entries are added. -/
theorem OperandAt.mono {filter other : Object} {path : List String} {operand : Json}
    (h : OperandAt filter path operand) (hsub : ∀ entry ∈ filter, entry ∈ other) :
    OperandAt other path operand := by
  cases h with
  | here hmem hplain => exact .here (hsub _ hmem) hplain
  | inside hmem hinner => exact .inside (hsub _ hmem) hinner

/-- The path of an operand is not empty. -/
theorem OperandAt.exists_cons {filter : Object} {path : List String} {operand : Json}
    (h : OperandAt filter path operand) : ∃ key rest, path = key :: rest := by
  cases h with
  | here => exact ⟨_, _, rfl⟩
  | inside => exact ⟨_, _, rfl⟩

/-- A branch has well-formed keys if its operands do. -/
theorem Branch.wellKeyed {key : String} {value : Json} (h : Branch key value)
    (hoperands : ∀ path operand, OperandAt [(key, value)] path operand → operand.WellKeyed) :
    key ≠ "" ∧ value.WellKeyed := by
  induction h with
  | operand operator hplain =>
    exact ⟨word_ne_empty operator, hoperands _ _ (.here List.mem_cons_self hplain)⟩
  | mode => exact ⟨by decide, trivial⟩
  | inside hkey hdistinct _ ih =>
    refine ⟨hkey, ?_⟩
    rw [Json.WellKeyed]
    refine entriesWellKeyed_iff.2 ⟨hdistinct, fun entry hentry => ih entry hentry ?_⟩
    intro path operand hoperand
    refine hoperands _ operand (.inside List.mem_cons_self (hoperand.mono fun other hother => ?_))
    rw [List.mem_singleton.1 hother]
    exact hentry

/-! ### Operands that are read back -/

/-- What is read back at the path of an operand is what survives of it. -/
theorem OperandAt.at?_survivingEntries {filter : Object} {path : List String} {operand : Json}
    (h : OperandAt filter path operand) (hfilter : EntriesWellKeyed filter) :
    Json.at? path (.object (Query.survivingEntries .standard filter)) =
      Query.survivor .standard operand := by
  induction h with
  | here hmem hplain =>
    have hget := Query.get?_survivingEntries hfilter.distinct hmem
      (Query.omits_eq_false (word_ne_modeKey _) .standard _)
    rw [Json.at?, Json.entries, hget]
    exact Option.bind_fun_some _
  | @inside filter inner key path operand hmem hinner ih =>
    have hget := Query.get?_survivingEntries hfilter.distinct hmem
      (Query.omits_object .standard key inner)
    have hne : inner ≠ [] := by
      rintro rfl
      cases hinner <;> exact absurd ‹_ ∈ _› List.not_mem_nil
    have hkeyed := ((entriesWellKeyed_iff.1 hfilter).2 _ hmem).2
    rw [Json.WellKeyed] at hkeyed
    obtain ⟨next, rest, rfl⟩ := hinner.exists_cons
    rw [Json.at?, Json.entries, hget, Query.survivor_of_ne_nil _ hne, Query.container_bind_at?,
      ih hkeyed]

/-- The operands of a filter are found in the query string of an object with its entries, each
spelled out, if and only if all of them last. -/
theorem reread_operands_iff {filter object : Object} (hsub : ∀ entry ∈ filter, entry ∈ object)
    (hkeyed : (∀ path operand, OperandAt filter path operand → operand.WellKeyed) →
      EntriesWellKeyed object) :
    (∀ path operand, OperandAt filter path operand →
        Json.at? path (.object (Query.reread object)) = some operand.spelled) ↔
      OperandsLast filter := by
  have hfound : (∀ path operand, OperandAt filter path operand → operand.WellKeyed) →
      ∀ path operand, OperandAt filter path operand →
        Json.at? path (.object (Query.reread object)) = Query.survivor .standard operand := by
    intro hall path operand hoperand
    rw [Query.reread_eq (hkeyed hall)]
    exact (hoperand.mono hsub).at?_survivingEntries (hkeyed hall)
  constructor
  · intro h
    -- what is read has well-formed keys, whatever was written
    have hall : ∀ path operand, OperandAt filter path operand → operand.WellKeyed := by
      intro path operand hoperand
      have hread : (Json.object (Query.reread object)).WellKeyed := by
        rw [Json.WellKeyed]
        exact Query.wellKeyed_deserialize _
      exact Json.wellKeyed_of_spelled (Query.wellKeyed_at? hread (h path operand hoperand))
    intro path operand hoperand
    refine ⟨hall path operand hoperand, Query.survivor_eq_spelled_iff.1 ?_⟩
    rw [← hfound hall path operand hoperand]
    exact h path operand hoperand
  · intro h path operand hoperand
    rw [hfound (fun path operand hoperand => (h path operand hoperand).1) path operand hoperand]
    exact Query.survivor_eq_spelled_iff.2 (h path operand hoperand).2

/-! ### Filters of rows -/

/-- The bounds of a range are operators with operands. -/
theorem branch_of_rangeFragment? {type : FieldType} {value : Value Scope} {part : Object}
    (h : rangeFragment? type value = some part) {entry : String × Json} (hentry : entry ∈ part) :
    Branch entry.1 entry.2 := by
  obtain ⟨operator, hoperator, -, bound, -, rfl⟩ := mem_rangeFragment? h hentry
  refine .operand operator fun hrelation => ?_
  rcases hoperator with rfl | rfl <;> exact absurd hrelation (by decide)

/-- What a row on a scalar field writes is an operator with an operand, two bounds, or a text beside
its mode. -/
theorem branch_of_scalarFragment? {type : FieldType} {operator : Operator}
    (hoperator : operator.isRelation = false) {value : Value Scope} {part : Object}
    (h : scalarFragment? type operator value = some part) {entry : String × Json}
    (hentry : entry ∈ part) : Branch entry.1 entry.2 := by
  have hsingle : ∀ operand, entry ∈ single operator operand → Branch entry.1 entry.2 := by
    intro operand hmem
    rw [List.mem_singleton.1 hmem]
    exact .operand operator fun hrelation => absurd hrelation (by simp [hoperator])
  unfold scalarFragment? at h
  cases type with
  | text =>
    rw [← Option.some.inj h, List.mem_append] at hentry
    rcases hentry with hentry | hentry
    · exact hsingle _ hentry
    · rw [List.mem_singleton.1 hentry]
      exact .mode
  | number =>
    simp only at h
    split at h
    · exact branch_of_rangeFragment? h hentry
    · exact hsingle _ (Option.some.inj h ▸ hentry)
  | date =>
    simp only at h
    split at h
    · exact branch_of_rangeFragment? h hentry
    · split at h
      · exact absurd h (by simp)
      · exact hsingle _ (Option.some.inj h ▸ hentry)
  | select => exact hsingle _ (Option.some.inj h ▸ hentry)
  | multiSelect => exact hsingle _ (Option.some.inj h ▸ hentry)
  | boolean => exact hsingle _ (Option.some.inj h ▸ hentry)
  | relation => exact hsingle _ (Option.some.inj h ▸ hentry)

/-- What a row on a field that a resource reaches writes branches down to operands if the filters of
the rows it holds do. -/
theorem branch_of_part? {root : Resource} {row : Condition Scope} {field : Field Scope}
    (hfield : row.field? = some field) (hknown : Known root field)
    (hinner : ∀ inner, row.Holds inner → ∀ entry ∈ compileRows inner, Branch entry.1 entry.2)
    {part : Object} (hpart : part? row = some part) : ∀ entry ∈ part, Branch entry.1 entry.2 := by
  intro entry hentry
  obtain ⟨scope, hreach, hmem⟩ := hknown
  by_cases htype : field.isRelation = true
  · obtain ⟨relation, hrelation⟩ := Option.isSome_iff_exists.1
      ((isRelation_eq hreach.proper hmem).symm.trans htype)
    cases relationPart_of_part? hfield htype hrelation hpart with
    | many _ hholds _ =>
      rw [List.mem_singleton.1 hentry]
      exact .inside (word_ne_empty _) (distinct_compileRows _) (hinner _ hholds)
    | one hholds _ => exact hinner _ hholds entry hentry
    | plain _ hoperand _ =>
      rw [List.mem_singleton.1 hentry]
      exact .operand _ fun _ => hoperand
  · rw [part?_eq (Condition.field?_eq_some.1 hfield) (parent_of_part? hpart),
      Option.bind_eq_some_iff] at hpart
    obtain ⟨choice, hchoice, hpart⟩ := hpart
    obtain ⟨operator, hlabel, rfl⟩ := Option.map_eq_some_iff.1 hchoice
    rw [choicePart?, fragmentWith?_scalar (Bool.eq_false_iff.2 htype)] at hpart
    obtain ⟨spec, hspec, rfl⟩ := Option.map_eq_some_iff.1 hlabel
    have hne : field.type ≠ .relation := fun heq => htype (by rw [Field.isRelation, heq]; rfl)
    have hplain : ∀ type : FieldType, type ≠ .relation →
        ∀ spec ∈ type.specs, spec.operator.isRelation = false := by
      intro type
      cases type <;> decide
    exact branch_of_scalarFragment? (hplain _ hne spec (List.mem_of_find?_eq_some hspec)) hpart
      hentry

/-- The filter of grounded rows branches down to its operands. -/
theorem Grounded.branch {root : Resource} {rows : List (Condition Scope)} (h : Grounded root rows) :
    ∀ entry ∈ compileRows rows, Branch entry.1 entry.2 := by
  induction h with
  | @rows rows hknown hbelow ih =>
    rintro ⟨target, value⟩ hentry
    have hgrounded : Grounded root rows := .rows hknown hbelow
    obtain ⟨row, hrow, part, hwrites⟩ :=
      mem_keys_compileRows.1 (Entries.mem_keys_of_mem hentry)
    obtain ⟨scope, field, hreach, hfield, rfl⟩ := hgrounded.exists_target hrow hwrites
    obtain ⟨operators, rfl, hdistinct, hwritten⟩ := exists_writers hentry
    refine .inside ((targets_fieldsOf hreach.proper).2 field hfield) hdistinct fun entry hmem => ?_
    obtain ⟨row, hrow, part, hwrites, hpart⟩ := hwritten entry hmem
    have hpart? : part? row = some part := by rw [part?, hwrites, Option.map_some]
    obtain ⟨hparent, own, hown, hknown⟩ := hgrounded.writer hrow hpart?
    exact branch_of_part? hown hknown (ih row hrow hparent) hpart? entry hpart

/-- The filter of grounded rows has well-formed keys if its operands do. -/
theorem Grounded.wellKeyed {root : Resource} {rows : List (Condition Scope)}
    (h : Grounded root rows)
    (hoperands : ∀ path operand, OperandAt (compileRows rows) path operand → operand.WellKeyed) :
    EntriesWellKeyed (compileRows rows) := by
  refine entriesWellKeyed_iff.2 ⟨distinct_compileRows rows, fun entry hentry => ?_⟩
  refine (h.branch entry hentry).wellKeyed fun path operand hoperand => ?_
  refine hoperands path operand (hoperand.mono fun other hother => ?_)
  rw [List.mem_singleton.1 hother]
  exact hentry

end QueryFilter
