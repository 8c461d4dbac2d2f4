import QueryFilter.Proofs.Filter.Choices

/-!
# What restored rows on a scalar field write

Whatever stands below the key of a scalar field, each row that is restored from it writes operators
that the type of the field offers, with operands of the type, and beside those of a text the mode
(`writtenOperators_of_restored`).  Operators that are written one after the other keep this form
(`WrittenOperators.united`).
-/

namespace QueryFilter

open Compile Restore

variable {σ : Type} {type : FieldType}

/-! ### Operands -/

/-- An operand that is written for a restored value beside an operator of a type. -/
inductive WrittenOperand : FieldType → Operator → Json → Prop
  | text {operator : Operator} (s : String) : WrittenOperand .text operator (.string s)
  | number {operator : Operator} (raw : String) :
      WrittenOperand .number operator (Operand.numberJson raw)
  | date {operator : Operator} {raw : String} (h : Text.allBlank raw = false) :
      WrittenOperand .date operator (Operand.dateJson raw)
  | choice {operator : Operator} (s : String) : WrittenOperand .select operator (.string s)
  | choices {operator : Operator} (h : operator.isList = true) (texts : List String) :
      WrittenOperand .select operator (.ofStrings texts)
  | several {operator : Operator} (texts : List String) :
      WrittenOperand .multiSelect operator (.ofStrings texts)
  | truth {operator : Operator} (b : Bool) : WrittenOperand .boolean operator (.bool b)
  | truthText {operator : Operator} {raw : String} (h : Operand.bool? raw = none) :
      WrittenOperand .boolean operator (.string raw)

/-- An entry of an operator that a type offers, with an operand that is written beside it.  A range
is written as its bounds. -/
def OperatorEntry (type : FieldType) (entry : String × Json) : Prop :=
  ∃ operator ∈ type.specs.map OperatorSpec.operator, operator ≠ .between ∧
    entry.1 = operator.word ∧ WrittenOperand type operator entry.2

/-- The mode is no operator. -/
theorem OperatorEntry.key_ne {entry : String × Json} (h : OperatorEntry type entry) :
    entry.1 ≠ modeKey := by
  obtain ⟨operator, -, -, hkey, -⟩ := h
  rw [hkey]
  exact word_ne_modeKey operator

/-- No operator of numbers takes a list. -/
theorem isList_number {operator : Operator}
    (h : operator ∈ FieldType.number.specs.map OperatorSpec.operator) :
    operator.isList = false := by
  have hdata : ∀ operator ∈ FieldType.number.specs.map OperatorSpec.operator,
      operator.isList = false := by decide
  exact hdata operator h

/-- The operand for a restored value is one that is written for such values. -/
theorem writtenOperand_operandOf (htype : type ≠ .relation) {operator : Operator}
    (hoffered : operator ∈ type.specs.map OperatorSpec.operator) (operand : Json)
    (hblank : type = .date → (valueOf type operator operand : Value σ).isEmpty = false) :
    WrittenOperand type operator (operandOf type (valueOf type operator operand : Value σ)) := by
  cases type with
  | text => exact .text _
  | number =>
    rw [valueOf, isList_number hoffered, if_neg (by decide)]
    exact .number _
  | date => exact .date (hblank rfl)
  | select =>
    rw [valueOf]
    split
    · rename_i hlist
      exact .choices (Bool.and_eq_true_iff.1 hlist).1 _
    · exact .choice _
  | multiSelect => exact .several _
  | boolean =>
    unfold valueOf
    simp only
    split
    · exact .truth _
    · cases hread : Operand.bool? operand.plainText with
      | some b => exact .truth b
      | none =>
        rw [operandOf, boolOperand, hread, Option.elim_none]
        exact .truthText hread
  | relation => exact absurd rfl htype

/-! ### Operators -/

/-- Entries with the mode of a type behind the first of them, where the first row puts it. -/
def withMode (type : FieldType) : Object → Object
  | [] => []
  | entry :: entries => entry :: (modeEntries type ++ entries)

/-- Operators that a type offers, with written operands, and the mode behind the first of them if
the type has one. -/
inductive WrittenOperators (type : FieldType) : Object → Prop
  | mk {entries : Object} (hne : entries ≠ []) (hdistinct : Entries.Distinct entries)
      (hentries : ∀ entry ∈ entries, OperatorEntry type entry) :
      WrittenOperators type (withMode type entries)

/-- Only texts have a mode. -/
theorem modeEntries_of_ne (h : type ≠ .text) : modeEntries type = [] :=
  if_neg h

/-- Entries of any other type stay as they are. -/
theorem withMode_of_ne (h : type ≠ .text) (entries : Object) : withMode type entries = entries := by
  cases entries with
  | nil => rfl
  | cons entry entries => rw [withMode, modeEntries_of_ne h, List.nil_append]

/-- One operator with its operand, and the mode. -/
theorem withMode_single (type : FieldType) (operator : Operator) (operand : Json) :
    withMode type [(operator.word, operand)] = single operator operand ++ modeEntries type := by
  rw [withMode, List.append_nil]
  rfl

/-- What stands among entries with a mode is one of them or the mode. -/
theorem mem_withMode {entries : Object} {entry : String × Json} :
    entry ∈ withMode type entries ↔
      entry ∈ entries ∨ (entries ≠ [] ∧ type = .text ∧ entry = (modeKey, .string insensitive)) := by
  cases entries with
  | nil => simp [withMode]
  | cons first entries =>
    have hmode : entry ∈ modeEntries type ↔
        type = .text ∧ entry = (modeKey, .string insensitive) := by
      unfold modeEntries
      split <;> simp [*]
    rw [withMode, List.mem_cons, List.mem_append, List.mem_cons, hmode]
    simp only [ne_eq, reduceCtorEq, not_false_eq_true, true_and]
    tauto

/-- Keys that occur once still do with the mode among them. -/
theorem distinct_withMode {entries : Object} (h : Entries.Distinct entries)
    (hmode : modeKey ∉ Entries.keys entries) : Entries.Distinct (withMode type entries) := by
  cases entries with
  | nil => exact h
  | cons entry entries =>
    rw [Entries.Distinct, Entries.keys_cons, List.nodup_cons] at h
    rw [Entries.keys_cons, List.mem_cons, not_or] at hmode
    rw [withMode]
    unfold modeEntries Entries.Distinct
    split
    · simp [hmode, h, Ne.symm hmode.1]
    · simpa using h

/-- A new value under an operator leaves the mode where it is. -/
theorem insert_withMode {entries : Object} (hne : entries ≠ []) {key : String}
    (hkey : key ≠ modeKey) (operand : Json) :
    Entries.insert (withMode type entries) key operand =
      withMode type (Entries.insert entries key operand) := by
  cases entries with
  | nil => exact absurd rfl hne
  | cons entry entries =>
    obtain ⟨first, value⟩ := entry
    have hskip : ∀ rest : Object, Entries.insert (modeEntries type ++ rest) key operand =
        modeEntries type ++ Entries.insert rest key operand := by
      intro rest
      unfold modeEntries
      split
      · rw [List.singleton_append, Entries.insert, Entries.alter, if_neg (Ne.symm hkey)]
        rfl
      · rfl
    rw [withMode, Entries.insert, Entries.alter]
    split
    · rename_i heq
      rw [Entries.insert, Entries.alter, if_pos heq, withMode]
    · rename_i hother
      rw [Entries.insert, Entries.alter, if_neg hother, withMode]
      exact congrArg _ (hskip entries)

/-- The mode is written once. -/
theorem extend_modeEntries {entries : Object} (hne : entries ≠ [])
    (hmode : modeKey ∉ Entries.keys entries) :
    Entries.extend (withMode type entries) (modeEntries type) = withMode type entries := by
  cases entries with
  | nil => exact absurd rfl hne
  | cons entry entries =>
    obtain ⟨first, value⟩ := entry
    rw [Entries.keys_cons, List.mem_cons, not_or] at hmode
    rw [withMode]
    unfold modeEntries
    split
    · rw [Entries.extend_cons, Entries.extend_nil, Entries.insert, Entries.alter,
        if_neg (Ne.symm hmode.1), List.singleton_append, Entries.alter, if_pos rfl]
    · rfl

/-- Operators that are written later are added to those that are there. -/
theorem extend_withMode {entries more : Object} (hne : entries ≠ [])
    (hentries : modeKey ∉ Entries.keys entries) (hmore : modeKey ∉ Entries.keys more) :
    Entries.extend (withMode type entries) (withMode type more) =
      withMode type (Entries.extend entries more) := by
  have hplain : ∀ {more entries : Object}, entries ≠ [] → modeKey ∉ Entries.keys more →
      Entries.extend (withMode type entries) more =
        withMode type (Entries.extend entries more) := by
    intro more
    induction more with
    | nil => exact fun _ _ => rfl
    | cons entry more ih =>
      intro entries hne hmore
      rw [Entries.keys_cons, List.mem_cons, not_or] at hmore
      rw [Entries.extend_cons, insert_withMode hne (Ne.symm hmore.1),
        ih (Entries.insert_ne_nil _ _ _) hmore.2, Entries.extend_cons]
  cases more with
  | nil => rfl
  | cons entry more =>
    rw [Entries.keys_cons, List.mem_cons, not_or] at hmore
    have hinserted : modeKey ∉ Entries.keys (Entries.insert entries entry.1 entry.2) := by
      rw [Entries.insert, Entries.mem_keys_alter, not_or]
      exact ⟨hentries, hmore.1⟩
    rw [withMode, Entries.extend_cons, insert_withMode hne (Ne.symm hmore.1),
      Entries.extend_append, extend_modeEntries (Entries.insert_ne_nil _ _ _) hinserted,
      hplain (Entries.insert_ne_nil _ _ _) hmore.2, Entries.extend_cons]

namespace WrittenOperators

/-- Among operators there is no mode. -/
theorem mode_not_mem {entries : Object} (h : ∀ entry ∈ entries, OperatorEntry type entry) :
    modeKey ∉ Entries.keys entries := by
  intro hkey
  obtain ⟨operand, hmem⟩ := Entries.mem_keys.1 hkey
  exact (h _ hmem).key_ne rfl

/-- Written operators are not empty. -/
theorem ne_nil {operators : Object} (h : WrittenOperators type operators) : operators ≠ [] := by
  cases h with
  | @mk entries hne _ _ =>
    cases entries with
    | nil => exact hne
    | cons entry entries => exact List.cons_ne_nil _ _

/-- Written operators have each key once. -/
theorem distinct {operators : Object} (h : WrittenOperators type operators) :
    Entries.Distinct operators := by
  obtain ⟨-, hdistinct, hentries⟩ := h
  exact distinct_withMode hdistinct (mode_not_mem hentries)

/-- Operators written after others. -/
theorem extend {operators more : Object} (h : WrittenOperators type operators)
    (hmore : WrittenOperators type more) :
    WrittenOperators type (Entries.extend operators more) := by
  obtain ⟨hne, hdistinct, hentries⟩ := h
  obtain ⟨-, -, hmore⟩ := hmore
  rw [extend_withMode hne (mode_not_mem hentries) (mode_not_mem hmore)]
  refine .mk (Entries.extend_ne_nil hne _) (hdistinct.extend _) fun entry hentry => ?_
  exact (Entries.mem_extend hentry).elim (hentries entry) (hmore entry)

/-- Operators written one after the other. -/
theorem united {parts : List Object} (hne : parts ≠ [])
    (h : ∀ part ∈ parts, WrittenOperators type part) : WrittenOperators type (united parts) :=
  united_induction hne (fun _ => WrittenOperators.distinct) (fun _ _ => WrittenOperators.extend) h

end WrittenOperators

/-! ### Rows -/

/-- A bound that is written is an operand of its type. -/
theorem writtenOperand_of_bound? (htype : type = .number ∨ type = .date) {side : Option String}
    {bound : Json} (h : bound? type side = some bound) (operator : Operator) :
    WrittenOperand type operator bound := by
  cases side with
  | none => exact absurd h (by simp [bound?])
  | some raw =>
    obtain ⟨hblank, rfl⟩ := bound?_eq_some.1 h
    rcases htype with rfl | rfl
    · exact .number _
    · exact .date (Text.not_allBlank_trim hblank)

/-- A range writes its bounds. -/
theorem writtenOperators_of_rangeFragment? (htype : type = .number ∨ type = .date)
    {value : Value σ} {part : Object} (h : rangeFragment? type value = some part) :
    WrittenOperators type part := by
  have htext : type ≠ .text := by rcases htype with rfl | rfl <;> decide
  have hoffered : ∀ operator : Operator, operator = .gte ∨ operator = .lte →
      operator ∈ type.specs.map OperatorSpec.operator ∧ operator ≠ .between := by
    intro operator hoperator
    rcases htype with rfl | rfl <;> rcases hoperator with rfl | rfl <;> decide
  obtain ⟨hne, hdistinct⟩ := distinct_rangeFragment? h
  rw [← withMode_of_ne htext part]
  refine .mk hne hdistinct fun entry hentry => ?_
  obtain ⟨operator, hoperator, side, bound, hbound, rfl⟩ := mem_rangeFragment? h hentry
  obtain ⟨hmem, hother⟩ := hoffered operator hoperator
  exact ⟨operator, hmem, hother, rfl, writtenOperand_of_bound? htype hbound operator⟩

/-- Where a restored choice writes, it writes operators of its type. -/
theorem writtenOperators_of_choice (htype : type ≠ .relation) {operator : Operator}
    (hoffered : operator ∈ type.specs.map OperatorSpec.operator) {value : Value σ}
    (hvalue : operator ≠ .between → ∃ operand, value = valueOf type operator operand)
    {part : Object} (h : scalarFragment? type operator value = some part) :
    WrittenOperators type part := by
  by_cases hne : operator = .between
  · subst hne
    have hranges : type = .number ∨ type = .date := by
      revert hoffered
      cases type <;> decide
    have hrange : rangeFragment? type value = some part := by
      rcases hranges with rfl | rfl
      · rwa [scalarFragment?, if_pos rfl] at h
      · rwa [scalarFragment?, if_pos rfl] at h
    exact writtenOperators_of_rangeFragment? hranges hrange
  · obtain ⟨operand, rfl⟩ := hvalue hne
    rw [scalarFragment?_eq hne, Option.ite_none_left_eq_some, Option.some.injEq] at h
    obtain ⟨hwrites, rfl⟩ := h
    have hblank : type = .date → (valueOf type operator operand : Value σ).isEmpty = false :=
      fun hdate => Bool.eq_false_iff.2 fun hempty => hwrites ⟨hdate, hempty⟩
    rw [← withMode_single]
    refine .mk (List.cons_ne_nil _ _) (List.nodup_singleton _) fun entry hentry => ?_
    rw [List.mem_singleton.1 hentry]
    exact ⟨operator, hoffered, hne, rfl, writtenOperand_operandOf htype hoffered operand hblank⟩

/-- A restored row has an operator that its type offers; unless it is a range its value is that of
an operand. -/
theorem exists_spec_of_mem_scalarRows {value : Json} {row : String × Value σ}
    (h : row ∈ scalarRows type value) :
    ∃ spec ∈ type.specs, row.1 = spec.label ∧
      (spec.operator ≠ .between → ∃ operand, row.2 = valueOf type spec.operator operand) := by
  have hlabels : ∀ {operator : Operator} {label : String}, type.label? operator = some label →
      ∃ spec ∈ type.specs, spec.operator = operator ∧ label = spec.label := by
    intro operator label hlabel
    obtain ⟨spec, hspec, rfl⟩ := Option.map_eq_some_iff.1 hlabel
    exact ⟨spec, List.mem_of_find?_eq_some hspec, by simpa using List.find?_some hspec, rfl⟩
  unfold scalarRows at h
  split at h
  · rename_i operators
    split at h
    · rename_i found hrange
      rw [List.mem_singleton.1 h]
      simp only [range?, bind, Option.bind_eq_some_iff, pure, Option.some.injEq] at hrange
      obtain ⟨_, _, _, _, label, hlabel, rfl⟩ := hrange
      obtain ⟨spec, hspec, hoperator, rfl⟩ := hlabels hlabel
      exact ⟨spec, hspec, rfl, fun hne => absurd hoperator hne⟩
    · obtain ⟨entry, -, hsingle⟩ := List.mem_filterMap.1 h
      simp only [single?, Option.ite_none_left_eq_some, bind, Option.bind_eq_some_iff, pure,
        Option.some.injEq] at hsingle
      obtain ⟨-, operator, -, label, hlabel, rfl⟩ := hsingle
      obtain ⟨spec, hspec, rfl, rfl⟩ := hlabels hlabel
      exact ⟨spec, hspec, rfl, fun _ => ⟨entry.2, rfl⟩⟩
  · exact absurd h List.not_mem_nil
  · split at h
    · rename_i label hlabel
      rw [List.mem_singleton.1 h]
      obtain ⟨spec, hspec, hoperator, rfl⟩ := hlabels hlabel
      exact ⟨spec, hspec, rfl, fun _ => ⟨_, by rw [hoperator]⟩⟩
    · exact absurd h List.not_mem_nil

/-- Where a row that is restored on a scalar field writes, it writes operators of the type. -/
theorem writtenOperators_of_restored (htype : type ≠ .relation) {value : Json}
    {row : String × Value σ} (hrow : row ∈ scalarRows type value) {part : Object}
    (h : ((type.operator? row.1).bind fun operator => scalarFragment? type operator row.2) =
      some part) : WrittenOperators type part := by
  obtain ⟨spec, hspec, hlabel, hvalue⟩ := exists_spec_of_mem_scalarRows hrow
  rw [hlabel, FieldType.operator?_label hspec, Option.bind_some] at h
  exact writtenOperators_of_choice htype (List.mem_map_of_mem hspec) hvalue h

end QueryFilter
