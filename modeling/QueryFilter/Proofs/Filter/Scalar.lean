import QueryFilter.Filter.Compile
import QueryFilter.Proofs.Condition.Canonical
import QueryFilter.Proofs.Query.Survivor

/-!
# Rows on scalar fields

A canonical row on a scalar field writes one operator with its operand (`scalarFragment?_of_ne`), or
the two bounds of a range (`scalarFragment?_range`).  From the operand its value is restored, also
from what survives of the operand in a query string (`valueOf_operandOf`).
-/

namespace QueryFilter

variable {σ : Type}

namespace Compile

/-! ### What is written -/

/-- The operand that is written for the value of a row. -/
def operandOf (type : FieldType) (value : Value σ) : Json :=
  match type with
  | .number => numberOperand value
  | .date => dateOperand value
  | .multiSelect => listOperand value
  | .boolean => boolOperand value
  | .text | .select | .relation => value.toJson

/-- The entry that stands beside the operators of a type. -/
def modeEntries (type : FieldType) : Object :=
  if type = .text then [(modeKey, .string insensitive)] else []

/-- The bound that is written for the end of a range. -/
def boundJson (type : FieldType) (raw : String) : Json :=
  match type with
  | .date => Operand.dateJson raw
  | _ => Operand.numberJson raw

/-- The bound of a date is its operand. -/
theorem boundJson_date (raw : String) : boundJson .date raw = Operand.dateJson raw := rfl

/-- The bound of a number is its operand. -/
theorem boundJson_number (raw : String) : boundJson .number raw = Operand.numberJson raw := rfl

/-- An operator other than a range is written with its operand, unless the value is a blank date. -/
theorem scalarFragment?_eq {type : FieldType} {operator : Operator} (h : operator ≠ .between)
    (value : Value σ) :
    scalarFragment? type operator value =
      if type = .date ∧ value.isEmpty = true then none
      else some (single operator (operandOf type value) ++ modeEntries type) := by
  cases type with
  | number =>
    rw [scalarFragment?, if_neg h, if_neg (by simp)]
    rfl
  | date =>
    rw [scalarFragment?, if_neg h]
    simp only [true_and]
    rfl
  | _ =>
    rw [if_neg (by simp)]
    rfl

/-- A row with one operator writes it with its operand. -/
theorem scalarFragment?_of_ne {type : FieldType} {operator : Operator} {value : Value σ}
    (h : CanonicalValue type operator value) (hoperator : operator ≠ .between) :
    scalarFragment? type operator value =
      some (single operator (operandOf type value) ++ modeEntries type) := by
  rw [scalarFragment?_eq hoperator, if_neg]
  rintro ⟨rfl, hblank⟩
  cases h with
  | date _ hs =>
    obtain ⟨i, hparse, _⟩ := hs
    exact absurd hblank (Bool.eq_false_iff.1 (Operand.not_allBlank_of_parse? hparse))
  | range _ _ => exact absurd rfl hoperator

/-- The ends of a range are around its first comma. -/
theorem rangeEnds_text {lower : String} (h : ',' ∉ lower.toList) (upper : String) :
    rangeEnds (.text (lower ++ "," ++ upper) : Value σ) = (some lower, some upper) := by
  have hcut : Text.cut? ',' (lower ++ "," ++ upper) = some (lower, upper) := by
    have hchars : (lower ++ "," ++ upper).toList = lower.toList ++ ',' :: upper.toList := by
      simp [String.toList_append]
    rw [Text.cut?, hchars, Text.cutAt_append h, Option.map_some, String.ofList_toList,
      String.ofList_toList]
  rw [rangeEnds, hcut]

/-- A bound that is not blank is written. -/
theorem bound?_some {type : FieldType} {raw : String} (h : Text.trim raw ≠ "") :
    bound? type (some raw) = some (boundJson type (Text.trim raw)) := by
  rw [bound?, Option.bind_some]
  simp only [if_neg h]
  cases type <;> rfl

/-- A blank end of a range is no bound. -/
theorem bound?_blank {type : FieldType} {raw : String} (h : Text.trim raw = "") :
    bound? type (some raw) = none := by
  rw [bound?, Option.bind_some]
  simp only [if_pos h]

/-- The bound of an end is that of its trimmed text, unless this is empty. -/
theorem bound?_eq_some {type : FieldType} {raw : String} {bound : Json} :
    bound? type (some raw) = some bound ↔
      Text.trim raw ≠ "" ∧ boundJson type (Text.trim raw) = bound := by
  by_cases h : Text.trim raw = ""
  · rw [bound?_blank h]
    exact iff_of_false (by simp) fun hbound => hbound.1 h
  · rw [bound?_some h, Option.some_inj]
    exact (and_iff_right h).symm

/-- A range writes one bound or both. -/
theorem mem_rangeFragment? {type : FieldType} {value : Value σ} {part : Object}
    (h : rangeFragment? type value = some part) {entry : String × Json} (hentry : entry ∈ part) :
    ∃ operator : Operator, (operator = .gte ∨ operator = .lte) ∧
      ∃ side bound, bound? type side = some bound ∧ entry = (operator.word, bound) := by
  have hside : ∀ (operator : Operator) (side : Option String),
      entry ∈ ((bound? type side).map fun operand => (operator.word, operand)).toList →
        ∃ bound, bound? type side = some bound ∧ entry = (operator.word, bound) := by
    intro operator side hmem
    obtain ⟨bound, hbound, rfl⟩ := Option.map_eq_some_iff.1 (Option.mem_toList.1 hmem)
    exact ⟨bound, hbound, rfl⟩
  unfold rangeFragment? at h
  simp only [Option.ite_none_left_eq_some, Option.some.injEq] at h
  rw [← h.2, List.mem_append] at hentry
  rcases hentry with hentry | hentry
  · exact ⟨.gte, .inl rfl, _, hside _ _ hentry⟩
  · exact ⟨.lte, .inr rfl, _, hside _ _ hentry⟩

/-- A range writes something, and each bound at most once. -/
theorem distinct_rangeFragment? {type : FieldType} {value : Value σ} {part : Object}
    (h : rangeFragment? type value = some part) : part ≠ [] ∧ Entries.Distinct part := by
  unfold rangeFragment? at h
  simp only [Option.ite_none_left_eq_some, Option.some.injEq] at h
  obtain ⟨hne, rfl⟩ := h
  refine ⟨fun hnil => hne (List.isEmpty_iff.2 hnil), ?_⟩
  unfold Entries.Distinct
  cases bound? type (rangeEnds value).1 <;> cases bound? type (rangeEnds value).2 <;>
    simp [Operator.word]

/-- The fragment of two bounds. -/
def boundsFragment (lower upper : Json) : Object :=
  [(Operator.gte.word, lower), (Operator.lte.word, upper)]

/-- A range with two canonical ends writes both. -/
theorem scalarFragment?_range {type : FieldType} {lower upper : String}
    (hlower : RangeEnd type lower)
    (hupper : RangeEnd type upper) :
    scalarFragment? type .between (.text (lower ++ "," ++ upper) : Value σ) =
      some (boundsFragment (boundJson type lower) (boundJson type upper)) := by
  have hrange : rangeFragment? type (.text (lower ++ "," ++ upper) : Value σ) =
      some (boundsFragment (boundJson type lower) (boundJson type upper)) := by
    have hl : Text.trim lower ≠ "" := hlower.trimmed.symm ▸ hlower.ne_empty
    have hu : Text.trim upper ≠ "" := hupper.trimmed.symm ▸ hupper.ne_empty
    simp only [rangeFragment?, rangeEnds_text hlower.no_comma, bound?_some hl, bound?_some hu,
      hlower.trimmed, hupper.trimmed]
    rfl
  rcases hlower.type_eq with rfl | rfl
  · rw [scalarFragment?, if_pos rfl, hrange]
  · rw [scalarFragment?, if_pos rfl, hrange]

end Compile

namespace Restore

/-! ### Lists -/

open Query (survivor survivingItems)

/-- A text in an array survives below its index. -/
theorem survivingItems_cons_string (options : Query.Options) (index : Nat) (s : String)
    (items : List Json) :
    survivingItems options index (.string s :: items) =
      (Decimal.natText index, .string s) :: survivingItems options (index + 1) items := rfl

/-- The items of an indexed object come back in order. -/
theorem listItems_survivingItems (options : Query.Options) (texts : List String) :
    listItems (.object (survivingItems options 0 (texts.map .string))) = texts := by
  have hplain : ∀ index, (survivingItems options index (texts.map .string)).map
      (fun entry => entry.2.plainText) = texts := by
    induction texts with
    | nil => exact fun _ => rfl
    | cons s texts ih =>
      intro index
      rw [List.map_cons, survivingItems_cons_string, List.map_cons, ih]
      rfl
  -- where the indices can be read, they are in order already
  have hindexed : ∀ index found, (survivingItems options index (texts.map .string)).mapM
        (fun entry => (listItems.index? entry.1).map fun i => (i, entry.2)) = some found →
      found.map (fun entry => entry.2.plainText) = texts ∧
        (∀ entry ∈ found, index ≤ entry.1) ∧ found.Pairwise fun a b => a.1 ≤ b.1 := by
    clear hplain
    induction texts with
    | nil =>
      intro index found hfound
      have hnil : found = [] := (Option.some.inj hfound).symm
      subst hnil
      exact ⟨rfl, fun _ h => absurd h List.not_mem_nil, List.Pairwise.nil⟩
    | cons s texts ih =>
      intro index found hfound
      rw [List.map_cons, survivingItems_cons_string, List.mapM_cons] at hfound
      simp only [bind, Option.bind_eq_some_iff, Option.map_eq_some_iff, pure,
        Option.some.injEq] at hfound
      obtain ⟨_, ⟨i, hi, rfl⟩, rest, hrest, rfl⟩ := hfound
      have hindex : index = i := by
        rw [listItems.index?, Decimal.natText, String.toList_ofList, Decimal.natBelow?_toDigits,
          Option.filter_eq_some_iff] at hi
        exact Option.some.inj hi.1
      subst hindex
      obtain ⟨htexts, hge, hsorted⟩ := ih (index + 1) rest hrest
      refine ⟨by rw [List.map_cons, htexts]; rfl, ?_, ?_⟩
      · intro entry hentry
        rcases List.mem_cons.1 hentry with rfl | hentry
        · exact Nat.le_refl _
        · exact Nat.le_of_succ_le (hge entry hentry)
      · exact List.Pairwise.cons (fun entry hentry => Nat.le_of_succ_le (hge entry hentry)) hsorted
  rw [listItems]
  split
  · rename_i indexed hmap
    obtain ⟨htexts, _, hsorted⟩ := hindexed 0 indexed hmap
    rw [List.mergeSort_of_pairwise (hsorted.imp fun h => decide_eq_true h), htexts]
  · exact hplain 0

/-- A list is restored from the array of its texts. -/
theorem listItems_ofStrings (texts : List String) : listItems (.ofStrings texts) = texts := by
  rw [Json.ofStrings, listItems, List.map_map]
  exact List.map_id' texts

/-- Of an array of texts all items survive, each below its index. -/
theorem survivor_ofStrings (options : Query.Options) {texts : List String} (h : texts ≠ []) :
    survivor options (.ofStrings texts) =
      some (.object (survivingItems options 0 (texts.map .string))) := by
  cases texts with
  | nil => exact absurd rfl h
  | cons s texts => rfl

/-! ### Operands -/

/-- The operand of a number survives as its text. -/
theorem survivor_numberJson (options : Query.Options) (s : String) :
    survivor options (Operand.numberJson s) = some (.string (Operand.numberJson s).plainText) := by
  unfold Operand.numberJson
  cases Operand.number? s <;> rfl

/-- The value of a canonical row is restored from its operand, and from what survives of it. -/
theorem valueOf_operandOf {type : FieldType} {operator : Operator} {value : Value σ}
    (hoffered : operator ∈ type.specs.map OperatorSpec.operator)
    (h : CanonicalValue type operator value) (hoperator : operator ≠ .between)
    (options : Query.Options) :
    valueOf type operator (Compile.operandOf type value) = value ∧
      ∃ left, survivor options (Compile.operandOf type value) = some left ∧
        valueOf type operator left = value := by
  cases h with
  | text s => exact ⟨rfl, _, rfl, rfl⟩
  | @number _ s _ hs =>
    have hlists : ∀ op ∈ FieldType.number.specs.map OperatorSpec.operator, op.isList = false := by
      decide
    have hlist := hlists operator hoffered
    -- a number survives as its text, and both have the same text
    have hplain : ∀ operand : Json, operand.plainText = s →
        (valueOf .number operator operand : Value σ) = .text s := by
      intro operand hoperand
      rw [valueOf, hlist, if_neg (by decide), hoperand]
    exact ⟨hplain _ hs.plainText_numberJson, _, survivor_numberJson options s,
      hplain _ hs.plainText_numberJson⟩
  | @date _ s _ hs =>
    obtain ⟨text, hjson, hshown⟩ := hs.shownText?_dateJson
    have hvalue : (valueOf .date operator (.string text) : Value σ) = .text s := by
      rw [valueOf, Json.plainText_string, hshown, Option.getD_some]
    have hoperand : Compile.operandOf .date (.text s : Value σ) = .string text := hjson
    rw [hoperand]
    exact ⟨hvalue, _, rfl, hvalue⟩
  | range hlower hupper => exact absurd rfl hoperator
  | choice s =>
    have hvalue : (valueOf .select operator (.string s) : Value σ) = .text s := by
      rw [valueOf, Json.isString, Bool.not_true, Bool.and_false, if_neg (by decide),
        Json.plainText_string]
    exact ⟨hvalue, _, rfl, hvalue⟩
  | choices hlist htexts =>
    have hvalue : ∀ operand : Json, operand.isString = false →
        (valueOf .select operator operand : Value σ) = .list (listItems operand) := by
      intro operand hoperand
      rw [valueOf, hlist, hoperand, if_pos (by decide)]
    refine ⟨?_, _, survivor_ofStrings options htexts, ?_⟩
    · exact (hvalue _ rfl).trans (congrArg Value.list (listItems_ofStrings _))
    · exact (hvalue _ rfl).trans (congrArg Value.list (listItems_survivingItems options _))
  | several htexts =>
    refine ⟨?_, _, survivor_ofStrings options htexts, ?_⟩
    · exact congrArg Value.list (listItems_ofStrings _)
    · exact congrArg Value.list (listItems_survivingItems options _)
  | truth b =>
    refine ⟨rfl, _, rfl, ?_⟩
    cases b <;> rfl

/-- An array of texts has no keys that could be malformed. -/
theorem wellKeyed_ofStrings (texts : List String) : (Json.ofStrings texts).WellKeyed := by
  rw [Json.ofStrings, Json.WellKeyed]
  refine itemsWellKeyed_of_forall fun item hitem => ?_
  obtain ⟨s, _, rfl⟩ := List.mem_map.1 hitem
  trivial

/-- The operand of a canonical row has no empty key and no key twice. -/
theorem wellKeyed_operandOf {type : FieldType} {operator : Operator} {value : Value σ}
    (h : CanonicalValue type operator value) (hoperator : operator ≠ .between) :
    (Compile.operandOf type value).WellKeyed := by
  cases h with
  | text s => trivial
  | @number _ s _ _ =>
    change (Operand.numberJson s).WellKeyed
    unfold Operand.numberJson
    cases Operand.number? s <;> trivial
  | date _ _ => trivial
  | range _ _ => exact absurd rfl hoperator
  | choice s => trivial
  | choices _ _ => exact wellKeyed_ofStrings _
  | several _ => exact wellKeyed_ofStrings _
  | truth b => trivial

/-- A bound has no keys that could be malformed. -/
theorem wellKeyed_boundJson (type : FieldType) (s : String) :
    (Compile.boundJson type s).WellKeyed := by
  have hnumber : (Operand.numberJson s).WellKeyed := by
    unfold Operand.numberJson
    cases Operand.number? s <;> trivial
  cases type <;> first | exact hnumber | trivial

/-- What a row with one operator writes is well-formed. -/
theorem wellKeyed_plain (operator : Operator) {operand : Json} (h : operand.WellKeyed)
    (type : FieldType) :
    EntriesWellKeyed (Compile.single operator operand ++ Compile.modeEntries type) := by
  rw [entriesWellKeyed_iff]
  have hmode : ∀ entry ∈ Compile.modeEntries type, entry = (modeKey, .string insensitive) := by
    intro entry hentry
    unfold Compile.modeEntries at hentry
    split at hentry
    · exact List.mem_singleton.1 hentry
    · exact absurd hentry List.not_mem_nil
  constructor
  · have hne := word_ne_modeKey operator
    unfold Compile.modeEntries Compile.single Entries.Distinct
    split <;> simp [hne]
  · intro entry hentry
    rcases List.mem_cons.1 hentry with rfl | hentry
    · exact ⟨word_ne_empty operator, h⟩
    · rw [hmode entry hentry]
      exact ⟨by decide, trivial⟩

/-- The keys of two bounds are well-formed. -/
theorem wellKeyed_bounds (type : FieldType) (lower upper : String) :
    EntriesWellKeyed
      (Compile.boundsFragment (Compile.boundJson type lower) (Compile.boundJson type upper)) :=
  ⟨by decide, by simp; decide, wellKeyed_boundJson type lower, by decide, List.not_mem_nil,
    wellKeyed_boundJson type upper, trivial⟩

/-! ### What survives of fragments -/

/-- A bound survives as its text. -/
theorem survivor_boundJson (options : Query.Options) (type : FieldType) (s : String) :
    survivor options (Compile.boundJson type s) =
      some (.string (Compile.boundJson type s).plainText) := by
  cases type <;> first | exact survivor_numberJson options s | rfl

/-- The mode is left out, so that one operator survives. -/
theorem survivingEntries_plain (operator : Operator) {operand left : Json}
    (h : survivor .standard operand = some left) (type : FieldType) :
    Query.survivingEntries .standard
        (Compile.single operator operand ++ Compile.modeEntries type) =
      [(operator.word, left)] := by
  have hoperator := Query.omits_eq_false (word_ne_modeKey operator) .standard operand
  rw [Compile.single, List.singleton_append, Query.survivingEntries_cons_kept hoperator h,
    Compile.modeEntries]
  split
  · rw [Query.survivingEntries_cons_omitted (by decide)]
    rfl
  · rfl

/-- Two bounds survive as their texts. -/
theorem survivingEntries_bounds (type : FieldType) (lower upper : String) :
    Query.survivingEntries .standard
        (Compile.boundsFragment (Compile.boundJson type lower) (Compile.boundJson type upper)) =
      Compile.boundsFragment (.string (Compile.boundJson type lower).plainText)
        (.string (Compile.boundJson type upper).plainText) := by
  have homits : ∀ operator : Operator, ∀ operand,
      Query.Options.standard.omits operator.word operand = false := fun operator operand =>
    Query.omits_eq_false (word_ne_modeKey operator) _ _
  rw [Compile.boundsFragment,
    Query.survivingEntries_cons_kept (homits .gte _) (survivor_boundJson _ _ _),
    Query.survivingEntries_cons_kept (homits .lte _) (survivor_boundJson _ _ _)]
  rfl

/-- The end of a range depends on the text of its operand alone. -/
theorem endpoint_congr {type : FieldType} {a b : Json} (h : a.plainText = b.plainText) :
    endpoint type a = endpoint type b := by
  cases type <;> simp only [endpoint, h]

/-- The end of a range is restored from its bound. -/
theorem endpoint_boundJson {type : FieldType} {s : String} (h : RangeEnd type s) :
    endpoint type (Compile.boundJson type s) = s := by
  have hcanonical := h.canonical
  rcases h.type_eq with rfl | rfl
  · exact hcanonical.plainText_numberJson
  · obtain ⟨text, hjson, hdate⟩ := hcanonical.dateText?_dateJson
    rw [Compile.boundJson_date, hjson, endpoint, Json.plainText_string, hdate, Option.getD_some]

/-! ### Rows -/

/-- Numbers and dates have ranges. -/
theorem label?_between {type : FieldType} (h : type = .number ∨ type = .date) :
    type.label? .between = some betweenLabel := by
  rcases h with rfl | rfl <;> decide

/-- Both bounds are restored as a range. -/
theorem scalarRows_bounds {type : FieldType} (h : type = .number ∨ type = .date)
    {operators : Object} {lower upper : Json}
    (hlower : Entries.get? operators Operator.gte.word = some lower)
    (hupper : Entries.get? operators Operator.lte.word = some upper) :
    (scalarRows type (.object operators) : List (String × Value σ)) =
      [(betweenLabel, .text (endpoint type lower ++ "," ++ endpoint type upper))] := by
  have hrange : (range? type operators : Option (String × Value σ)) =
      some (betweenLabel, .text (endpoint type lower ++ "," ++ endpoint type upper)) := by
    simp only [range?, hlower, hupper, label?_between h, bind, Option.bind, pure]
  rw [scalarRows, hrange]

/-- Without both bounds each operator is restored by itself. -/
theorem scalarRows_singles {type : FieldType} {operators : Object}
    (h : (range? type operators : Option (String × Value σ)) = none) :
    (scalarRows type (.object operators) : List (String × Value σ)) =
      operators.filterMap (single? type) := by
  rw [scalarRows, h]

/-- An operator that a type offers is restored under its label. -/
theorem single?_word {type : FieldType} {spec : OperatorSpec} (hspec : spec ∈ type.specs)
    (operand : Json) :
    (single? type (spec.operator.word, operand) : Option (String × Value σ)) =
      some (spec.label, valueOf type spec.operator operand) := by
  rw [single?, if_neg (word_ne_modeKey _)]
  simp only [Operator.ofWord?_word, FieldType.label?_operator hspec, bind, Option.bind, pure]

/-- Without one of the bounds there is no range. -/
theorem range?_eq_none {type : FieldType} {operators : Object}
    (h : Entries.get? operators Operator.gte.word = none ∨
      Entries.get? operators Operator.lte.word = none) :
    (range? type operators : Option (String × Value σ)) = none := by
  unfold range?
  rcases h with h | h
  · rw [h]
    rfl
  · rw [h]
    cases Entries.get? operators Operator.gte.word <;> rfl

/-- One operator is restored to one row. -/
theorem scalarRows_single {type : FieldType} {spec : OperatorSpec} (hspec : spec ∈ type.specs)
    (operand : Json) :
    (scalarRows type (.object [(spec.operator.word, operand)]) : List (String × Value σ)) =
      [(spec.label, valueOf type spec.operator operand)] := by
  have hbounds : Entries.get? [(spec.operator.word, operand)] Operator.gte.word = none ∨
      Entries.get? [(spec.operator.word, operand)] Operator.lte.word = none := by
    by_cases hgte : spec.operator = .gte
    · refine .inr ?_
      rw [Entries.get?_cons, hgte, if_neg (by decide), Entries.get?_nil]
    · refine .inl ?_
      rw [Entries.get?_cons, if_neg fun heq => hgte (Operator.word_injective heq), Entries.get?_nil]
  rw [scalarRows_singles (range?_eq_none hbounds),
    List.filterMap_cons_some (single?_word hspec operand), List.filterMap_nil]

/-- The mode is no row. -/
theorem single?_modeKey (type : FieldType) (operand : Json) :
    (single? type (modeKey, operand) : Option (String × Value σ)) = none := by
  rw [single?, if_pos rfl]

end Restore

end QueryFilter
