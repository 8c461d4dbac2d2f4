import QueryFilter.Proofs.Catalog.Paths
import QueryFilter.Proofs.Filter.InScope
import QueryFilter.Proofs.Filter.Settled
import QueryFilter.Proofs.Query.Reread

/-!
# Integers in rows

An integer that is sent on a number field is written at the word of its operator, or, if it is an
end of a range, at the word of this end (`IntegerSent`).  A row that is alone at its target keeps
what it writes, through the query string as well: what is read back is restored to rows that write
the integer again (`integerIn_number`), and so does a row on a relation with such rows inside it
(`integerIn_relation`).

What is written is the number that the digits of the integer are read as, `Operand.numberJson` of
their text.  Whether this is the integer itself does not matter here.
-/

namespace QueryFilter

open Catalog Compile Restore

variable {σ : Type}

/-- An integer stands in the value that is sent with an operator of a number field, and is to be
written at a word: it is the number that is sent, or an end of the text of a range, with any blanks
around it. -/
inductive IntegerSent (i : Int) : Operator → Json → String → Prop
  | alone {operator : Operator} (hoperator : operator ≠ .between) :
      IntegerSent i operator (.ofInt i) operator.word
  | only {raw : String} (hraw : Text.trim raw = Decimal.intText i) :
      IntegerSent i .between (.string raw) Operator.gte.word
  | lower {raw : String} (hraw : Text.trim raw = Decimal.intText i) (upper : String) :
      IntegerSent i .between (.string (raw ++ "," ++ upper)) Operator.gte.word
  | upper {lower raw : String} (hcomma : ',' ∉ lower.toList)
      (hraw : Text.trim raw = Decimal.intText i) :
      IntegerSent i .between (.string (lower ++ "," ++ raw)) Operator.lte.word

/-! ### What is written for texts of numbers -/

/-- Operators on a number field in which an integer stands at a word: it was written there, some of
them is left in a query string, and if the integer itself was written, then it is written again for
what is left. -/
structure IntegerAt (σ : Type) (i : Int) (word : String) (operators : Object) : Prop where
  wellKeyed : EntriesWellKeyed operators
  first : Entries.get? operators word = some (Operand.numberJson (Decimal.intText i))
  left : Query.survivingEntries .standard operators ≠ []
  again : Operand.numberJson (Decimal.intText i) = .ofInt i →
    Entries.get? (written .number (chosen .number (Query.survivingEntries .standard operators) :
      List (Operator × Value σ))) word = some (.ofInt i)

/-- A text under one operator is written again as the number that it stands for. -/
theorem written_chosen_text {spec : OperatorSpec} (hspec : spec ∈ FieldType.number.specs)
    (hne : spec.operator ≠ .between) (s : String) :
    written .number (chosen .number [(spec.operator.word, .string s)] :
      List (Operator × Value σ)) = [(spec.operator.word, Operand.numberJson s)] := by
  have hlist := isList_number (List.mem_map_of_mem hspec)
  have hchosen : (chosen .number [(spec.operator.word, .string s)] : List (Operator × Value σ)) =
      [(spec.operator, .text s)] := by
    rw [chosen, scalarRows_single hspec,
      List.filterMap_cons_some (b := (spec.operator, .text s)), List.filterMap_nil]
    rw [FieldType.operator?_label hspec, Option.map_some, valueOf, hlist]
    rfl
  have hfragment : fragmentOf? .number (spec.operator, (.text s : Value σ)) =
      some [(spec.operator.word, Operand.numberJson s)] := by
    rw [fragmentOf?, scalarFragment?, if_neg hne]
    rfl
  rw [hchosen, written, List.filterMap_cons_some hfragment, List.filterMap_nil]
  rfl

/-- The texts of two bounds are written again as the bounds of the range that they are restored
to. -/
theorem written_chosen_texts {lower : String} (hlower : ',' ∉ lower.toList) (upper : String) :
    written .number (chosen .number (boundsFragment (.string lower) (.string upper)) :
      List (Operator × Value σ)) = boundsOf .number lower upper := by
  have hgte : Entries.get? (boundsFragment (.string lower) (.string upper)) Operator.gte.word =
      some (.string lower) := rfl
  have hlte : Entries.get? (boundsFragment (.string lower) (.string upper)) Operator.lte.word =
      some (.string upper) := rfl
  have hchosen : (chosen .number (boundsFragment (.string lower) (.string upper)) :
      List (Operator × Value σ)) = [(.between, .text (lower ++ "," ++ upper))] := by
    rw [chosen, scalarRows_bounds (.inl rfl) hgte hlte,
      List.filterMap_cons_some (b := (.between, .text (lower ++ "," ++ upper))),
      List.filterMap_nil]
    rfl
  rw [hchosen, written_range (.inl rfl) hlower]

variable {i : Int}

/-- An integer has no comma, so that a range can be cut between its ends. -/
theorem comma_not_mem_intText (i : Int) : ',' ∉ (Decimal.intText i).toList :=
  comma_not_mem_number (.integer i)

/-- An operator with an integer. -/
theorem integerAt_single {operator : Operator}
    (hoffered : operator ∈ FieldType.number.specs.map OperatorSpec.operator)
    (hne : operator ≠ .between) : IntegerAt σ i operator.word
      (single operator (Operand.numberJson (Decimal.intText i))) := by
  obtain ⟨spec, hspec, rfl⟩ := List.mem_map.1 hoffered
  have hmode : modeEntries .number = [] := rfl
  have hkeyed := wellKeyed_plain spec.operator (wellKeyed_boundJson .number (Decimal.intText i))
    .number
  have hleft := survivingEntries_plain spec.operator
    (survivor_numberJson .standard (Decimal.intText i)) .number
  rw [hmode, List.append_nil] at hkeyed hleft
  refine ⟨hkeyed, Entries.get?_cons_self _ _ _, hleft ▸ List.cons_ne_nil _ _, fun hread => ?_⟩
  have hplain : (Operand.numberJson (Decimal.intText i)).plainText = Decimal.intText i := by
    rw [hread]
    rfl
  rw [hleft, hplain, written_chosen_text hspec hne, hread]
  exact Entries.get?_cons_self _ _ _

/-- An end of a range that is an integer is the bound of this integer. -/
theorem bound?_intText {raw : String} (h : Text.trim raw = Decimal.intText i) :
    bound? .number (some raw) = some (Operand.numberJson (Decimal.intText i)) := by
  have hne : Text.trim raw ≠ "" := by
    rw [h]
    exact Decimal.intText_ne_empty i
  rw [bound?_some hne, h]
  rfl

/-- The bound of a side that is an integer. -/
inductive IntegerSide (i : Int) (lower upper : String) : Operator → Prop
  | lower (h : Text.trim lower = Decimal.intText i) : IntegerSide i lower upper .gte
  | upper (h : Text.trim upper = Decimal.intText i) : IntegerSide i lower upper .lte

/-- Two bounds, one of which is an integer. -/
theorem integerAt_both {lower upper : String} (hcomma : ',' ∉ lower.toList)
    (hlower : Text.trim lower ≠ "") (hupper : Text.trim upper ≠ "") {operator : Operator}
    (h : IntegerSide i lower upper operator) :
    IntegerAt σ i operator.word (boundsOf .number lower upper) := by
  have hfirst : bound? .number (some lower) = some (boundJson .number (Text.trim lower)) :=
    bound?_some hlower
  have hsecond : bound? .number (some upper) = some (boundJson .number (Text.trim upper)) :=
    bound?_some hupper
  have hbounds : boundsOf .number lower upper =
      boundsFragment (boundJson .number (Text.trim lower))
        (boundJson .number (Text.trim upper)) := by
    rw [boundsOf, hfirst, hsecond]
    rfl
  obtain ⟨hgte, hlte⟩ := get?_boundsOf .number lower upper
  have hleft := survivingEntries_bounds .number (Text.trim lower) (Text.trim upper)
  rw [← hbounds] at hleft
  have hfree : ',' ∉ (boundJson .number (Text.trim lower)).plainText.toList :=
    comma_not_mem_of_bound? hfirst hcomma
  refine ⟨hbounds ▸ wellKeyed_bounds .number _ _, ?_, hleft ▸ List.cons_ne_nil _ _, fun hread => ?_⟩
  · cases h with
    | lower h => rw [hgte, bound?_intText h]
    | upper h => rw [hlte, bound?_intText h]
  · have hplain : (boundJson .number (Decimal.intText i)).plainText = Decimal.intText i := by
      rw [boundJson_number, hread]
      rfl
    have htrim : Text.trim (Decimal.intText i) = Decimal.intText i :=
      Operand.trim_text (.integer i)
    rw [hleft, written_chosen_texts hfree]
    obtain ⟨hgte, hlte⟩ := get?_boundsOf .number
      (boundJson .number (Text.trim lower)).plainText
      (boundJson .number (Text.trim upper)).plainText
    cases h with
    | lower h => rw [hgte, h, hplain, bound?_intText htrim, hread]
    | upper h => rw [hlte, h, hplain, bound?_intText htrim, hread]

/-- The bounds of a range, one of which is an integer. -/
theorem integerAt_boundsOf {lower upper : String} (hcomma : ',' ∉ lower.toList)
    {operator : Operator} (h : IntegerSide i lower upper operator) :
    IntegerAt σ i operator.word (boundsOf .number lower upper) := by
  have hne : ∀ {raw : String}, Text.trim raw = Decimal.intText i → Text.trim raw ≠ "" :=
    fun hraw => hraw ▸ Decimal.intText_ne_empty i
  by_cases hlower : Text.trim lower = ""
  · cases h with
    | lower h => exact absurd hlower (hne h)
    | upper h =>
      rw [boundsOf, bound?_blank hlower, bound?_intText h]
      exact integerAt_single (by decide) (by decide)
  · by_cases hupper : Text.trim upper = ""
    · cases h with
      | lower h =>
        rw [boundsOf, bound?_blank hupper, bound?_intText h]
        exact integerAt_single (by decide) (by decide)
      | upper h => exact absurd hupper (hne h)
    · exact integerAt_both hcomma hlower hupper h

/-! ### What is written for a value that is sent -/

/-- A range with an end that is not blank writes its bounds. -/
theorem scalarFragment?_boundsOf {lower upper : String} (hcomma : ',' ∉ lower.toList)
    (hne : boundsOf .number lower upper ≠ []) :
    scalarFragment? .number .between (.text (lower ++ "," ++ upper) : Value σ) =
      some (boundsOf .number lower upper) := by
  rw [scalarFragment?, if_pos rfl, rangeFragment?, rangeEnds_text hcomma]
  exact if_neg (by rwa [List.isEmpty_iff])

/-- An integer that is sent with an operator is written at its word. -/
theorem IntegerSent.exists_operators {spec : OperatorSpec} (hspec : spec ∈ FieldType.number.specs)
    {json : Json} {word : String} (h : IntegerSent i spec.operator json word) :
    ∃ operators, scalarFragment? .number spec.operator (.ofJson json : Value σ) = some operators ∧
      IntegerAt σ i word operators := by
  have hbetween : ∀ {lower upper : String}, ',' ∉ lower.toList → ∀ {operator : Operator},
      IntegerSide i lower upper operator →
        scalarFragment? .number .between (.text (lower ++ "," ++ upper) : Value σ) =
          some (boundsOf .number lower upper) ∧
        IntegerAt σ i operator.word (boundsOf .number lower upper) := by
    intro lower upper hcomma operator hside
    have hat := integerAt_boundsOf (σ := σ) hcomma hside
    refine ⟨scalarFragment?_boundsOf hcomma fun hnil => ?_, hat⟩
    rw [hnil] at hat
    exact absurd hat.first (by simp)
  have hfree : ∀ {raw : String}, Text.trim raw = Decimal.intText i → ',' ∉ raw.toList := by
    -- a comma is not trimmed, so that it would stand in the text of the integer
    intro raw hraw hmem
    refine comma_not_mem_intText i ?_
    rw [← hraw, Text.toList_trim]
    exact Text.mem_trimChars hmem (by decide)
  generalize hoperator : spec.operator = operator at h
  cases h with
  | alone hne =>
    refine ⟨single operator (Operand.numberJson (Decimal.intText i)), ?_, ?_⟩
    · rw [scalarFragment?, if_neg hne]
      rfl
    · exact integerAt_single (hoperator ▸ List.mem_map_of_mem hspec) hne
  | @only raw hraw =>
    have hends : rangeEnds (.text raw : Value σ) = (some raw, none) := by
      rw [rangeEnds, Text.cut?, Text.cutAt_eq_none.2 (hfree hraw), Option.map_none]
    refine ⟨single .gte (Operand.numberJson (Decimal.intText i)), ?_, ?_⟩
    · rw [scalarFragment?, if_pos rfl, Value.ofJson, rangeFragment?, hends, bound?_intText hraw]
      rfl
    · exact integerAt_single (by decide) (by decide)
  | lower hraw upper => exact ⟨_, hbetween (hfree hraw) (.lower hraw)⟩
  | upper hcomma hraw => exact ⟨_, hbetween hcomma (.upper hraw)⟩

/-! ### Filters at a target -/

/-- A row that is alone at its target writes all that stands there. -/
theorem get?_compileRows_alone [Schema σ] {rows : List (Condition σ)} {row : Condition σ}
    {field : Field σ} (halone : rows.filter (Condition.isAt field.target) = [row])
    {part : Object} (hpart : part? row = some part) (hdistinct : Entries.Distinct part) :
    Entries.get? (compileRows rows) field.target = some (.object part) := by
  have hparts : (rows.filter (Condition.isAt field.target)).filterMap part? = [part] := by
    rw [halone, List.filterMap_cons_some hpart, List.filterMap_nil]
  have hkey : field.target ∈ Entries.keys (compileRows rows) := by
    rw [mem_keys_compileRows_iff, hparts]
    exact List.cons_ne_nil _ _
  rw [get?_compileRows_target hkey, operatorsOn, hparts]
  exact congrArg (some ∘ Json.object) (Entries.extend_nil_left hdistinct)

section Grounded

variable {root : Resource} {rows : List (Condition Scope)}

/-- The keys of the filter of grounded rows are targets. -/
theorem Grounded.exists_field (h : Grounded root rows) {key : String}
    (hkey : key ∈ Entries.keys (compileRows rows)) :
    ∃ field, Known root field ∧ field.target = key := by
  obtain ⟨row, hrow, part, hwrites⟩ := mem_keys_compileRows.1 hkey
  obtain ⟨scope, field, hreach, hfield, htarget⟩ := h.exists_target hrow hwrites
  exact ⟨field, ⟨scope, hreach, hfield⟩, htarget⟩

/-- The keys that grounded rows write are not empty. -/
theorem Grounded.keys_ne_empty (h : Grounded root rows) :
    ∀ key ∈ Entries.keys (compileRows rows), key ≠ "" := by
  intro key hkey
  obtain ⟨field, hknown, rfl⟩ := h.exists_field hkey
  exact hknown.target_ne_empty

/-- What is read back from the query string of grounded rows and compiled again, from any scope, has
at a target what is written again for the operators that are read back there. -/
theorem Grounded.get?_again (h : Grounded root rows) {scope : Scope} (hscope : Reaches root scope)
    {field : Field Scope} (hfield : scope.Finds field) {operators : Object}
    (hget : Entries.get? (Query.reread (compileRows rows)) field.target = some (.object operators))
    (hagain : operatorsAgain field operators ≠ []) :
    Entries.get? (recompiled scope (Query.reread (compileRows rows))) field.target =
      some (.object (operatorsAgain field operators)) := by
  have hdistinct := Query.distinct_reread (compileRows rows)
  have hkeys : ∀ key ∈ Entries.keys (Query.reread (compileRows rows)),
      ∃ other, scope.Finds other ∧ other.target = key := by
    intro key hkey
    obtain ⟨known, hknown, rfl⟩ := h.exists_field (Query.mem_keys_of_reread h.keys_ne_empty hkey)
    obtain ⟨other, hfinds, -, hshape⟩ := exists_finds hscope hknown
    exact ⟨other, hfinds, congrArg Prod.fst hshape⟩
  refine get?_recompiled hscope hdistinct hkeys hfield hget ?_
  rw [mem_keys_recompiled hscope hdistinct hkeys hfield, hget]
  intro hnil
  refine hagain ?_
  change united (((some (Json.object operators)).map (headRows field none)).getD [] |>.filterMap
    part?) = []
  rw [hnil]
  rfl

end Grounded

/-! ### Rows with an integer -/

/-- An integer stands at a place in the filter of grounded rows, and something of the filter is left
in a query string; if the integer itself was written, then it is written again for what is left,
from any scope. -/
structure IntegerIn (root : Resource) (i : Int) (place : List String)
    (rows : List (Condition Scope)) : Prop where
  grounded : Grounded root rows
  first : Json.at? place (.object (compileRows rows)) =
    some (Operand.numberJson (Decimal.intText i))
  left : Query.reread (compileRows rows) ≠ []
  again : Operand.numberJson (Decimal.intText i) = .ofInt i → ∀ scope, Reaches root scope →
    Json.at? place (.object (recompiled scope (Query.reread (compileRows rows)))) =
      some (.ofInt i)

variable {root : Resource} {rows : List (Condition Scope)} {field : Field Scope}

/-- Where a value other than an object stands there are entries. -/
theorem ne_nil_of_at? {place : List String} {entries : Object} {value : Json}
    (h : Json.at? place (.object entries) = some value) (hvalue : value.isObject = false) :
    entries ≠ [] := by
  rintro rfl
  cases place with
  | nil =>
    rw [← Option.some.inj h] at hvalue
    exact absurd hvalue (by decide)
  | cons key place => exact absurd h (by simp [Json.at?, Json.entries])

/-- The operand of a number is no object. -/
theorem isObject_numberJson (s : String) : (Operand.numberJson s).isObject = false := by
  rcases Operand.numberJson_scalar s with ⟨n, hn⟩ | ⟨t, ht⟩
  · rw [hn]
    rfl
  · rw [ht]
    rfl

/-- Rows that hold an integer write something. -/
theorem IntegerIn.compileRows_ne_nil {place : List String} (h : IntegerIn root i place rows) :
    compileRows rows ≠ [] :=
  ne_nil_of_at? h.first (isObject_numberJson _)

/-- A row that is alone at its target, with an integer in what it writes: it has to be written again
on all fields of the shape of its own. -/
theorem integerIn_of_part? (hgrounded : Grounded root rows) (hfield : Known root field)
    {row : Condition Scope} (halone : rows.filter (Condition.isAt field.target) = [row])
    {part : Object} (hpart : part? row = some part) (hdistinct : Entries.Distinct part)
    (hkeys : ∀ key ∈ Entries.keys part, key ≠ "") (hleft : Query.reread part ≠ [])
    {place : List String}
    (hfirst : Json.at? place (.object part) = some (Operand.numberJson (Decimal.intText i)))
    (hagain : Operand.numberJson (Decimal.intText i) = .ofInt i → ∀ other, Known root other →
      shape other = shape field →
        Json.at? place (.object (operatorsAgain other (Query.reread part))) = some (.ofInt i)) :
    IntegerIn root i (field.target :: place) rows := by
  have hget := get?_compileRows_alone halone hpart hdistinct
  have hreread := Query.get?_reread (distinct_compileRows rows) hgrounded.keys_ne_empty hkeys hget
    hleft
  refine ⟨hgrounded, ?_, ?_, fun hinteger scope hscope => ?_⟩
  · rw [Json.at?_object_cons, hget, Option.bind_some, hfirst]
  · intro hnil
    rw [hnil] at hreread
    exact absurd hreread (by simp)
  · obtain ⟨other, hfinds, hknown, hshape⟩ := exists_finds hscope hfield
    have hwritten := hagain hinteger other hknown hshape
    have htarget : other.target = field.target := congrArg Prod.fst hshape
    rw [← htarget] at hreread ⊢
    rw [Json.at?_object_cons, hgrounded.get?_again hscope hfinds hreread
      (ne_nil_of_at? hwritten rfl), Option.bind_some, hwritten]

/-- A row on a number field that is alone at its target. -/
theorem integerIn_number (hgrounded : Grounded root rows) (hfield : Known root field)
    (htype : field.type = .number) {spec : OperatorSpec} (hspec : spec ∈ field.specs)
    {json : Json} {word : String} (hsent : IntegerSent i spec.operator json word)
    (id : Option RowId) (halone : rows.filter (Condition.isAt field.target) =
      [.row id field spec.label (.ofJson json)]) :
    IntegerIn root i [field.target, word] rows := by
  have hscalar : ∀ {other : Field Scope}, other.type = .number → other.isRelation = false := by
    intro other hother
    rw [Field.isRelation, hother]
    rfl
  obtain ⟨part, hfragment, hat⟩ :=
    hsent.exists_operators (σ := Scope) (htype ▸ Field.mem_specs_of_mem hspec)
  have hpart : part? (.row id field spec.label (.ofJson json)) = some part := by
    have hwrites := fragment?_offered id hspec (.ofJson json : Value Scope)
    rw [fragmentWith?_scalar (hscalar htype), htype, hfragment, Option.map_some] at hwrites
    exact congrArg (Option.map Prod.snd) hwrites
  have hread : Query.reread part = Query.survivingEntries .standard part :=
    Query.reread_eq hat.wellKeyed
  refine integerIn_of_part? hgrounded hfield halone hpart hat.wellKeyed.distinct
    (Query.keys_ne_empty hat.wellKeyed) (hread ▸ hat.left) ?_ fun hinteger other _ hshape => ?_
  · rw [Json.at?_object_cons, hat.first]
    rfl
  · have htype' : other.type = .number := (congrArg (fun s => s.2.1) hshape).trans htype
    have hwritten := hat.again hinteger
    rw [← hread, ← htype', ← operatorsAgain_scalar (hscalar htype')] at hwritten
    rw [Json.at?_object_cons, hwritten]
    rfl

/-- A field of the shape of a relation is a relation of the same kind, which offers the same
operators. -/
theorem exists_relation_of_shape {other : Field Scope} (hother : Known root other)
    (hshape : shape other = shape field) {relation : Relation Scope}
    (hrelation : field.relation = some relation) :
    other.specs = field.specs ∧ other.kind? = field.kind? ∧
      ∃ again, other.relation = some again ∧ Reaches root again.scope := by
  obtain ⟨-, hsame⟩ := Prod.mk.inj hshape
  obtain ⟨htype, hleads⟩ := Prod.mk.inj hsame
  rw [hrelation, Option.map_some, Option.map_eq_some_iff] at hleads
  obtain ⟨again, hagain, hlead⟩ := hleads
  have hkind : other.kind? = field.kind? := by
    rw [kind?_eq_some hagain, kind?_eq_some hrelation, (Prod.mk.inj hlead).1]
  obtain ⟨scope, hscope, hmem⟩ := hother
  refine ⟨?_, hkind, again, hagain, hscope.step hmem hagain⟩
  rw [Field.specs, Field.specs, hkind, htype]

/-- Operators that are restored to one row on a relation are written again as this row is. -/
theorem operatorsAgain_kept [Schema σ] {field : Field σ} {relation : Relation σ}
    (htype : field.isRelation = true) (hrelation : field.relation = some relation)
    {spec : OperatorSpec} (hspec : spec ∈ FieldType.relation.specs) {operators kept part : Object}
    (hrows : headRows field none (.object operators) =
      [rowOf field none spec.label (.filter kept)])
    (hpart : relationFragment? field spec.operator (recompiled relation.scope kept) = some part)
    (hdistinct : Entries.Distinct part) : operatorsAgain field operators = part := by
  rw [operatorsAgain, hrows, List.filterMap_cons_some
    ((part?_rowOf_filter htype hrelation hspec kept).trans hpart), List.filterMap_nil]
  exact Entries.extend_nil_left hdistinct

/-- A row that holds rows writes the filter of these. -/
theorem part?_conditions (id : Option RowId) (htype : field.isRelation = true)
    {spec : OperatorSpec} (hspec : spec ∈ field.specs) (inner : List (Condition Scope)) :
    part? (.row id field spec.label (.conditions inner)) =
      relationFragment? field spec.operator (compileRows inner) := by
  have hwrites := fragment?_offered id hspec (.conditions inner : Value Scope)
  rw [fragmentWith?_conditions htype] at hwrites
  rw [part?, Condition.row, hwrites, Option.map_map]
  exact congrFun Option.map_id _

section Relations

variable {spec : OperatorSpec} {inner : List (Condition Scope)} {place : List String}

/-- A row on a relation to one item that is alone at its target, with an integer in the rows inside
it. -/
theorem integerIn_toOne (hgrounded : Grounded root rows) (hfield : Known root field)
    (hkind : field.kind? = some .toOne) (hspec : spec ∈ field.specs)
    (hinner : IntegerIn root i place inner) (id : Option RowId)
    (halone : rows.filter (Condition.isAt field.target) =
      [.row id field spec.label (.conditions inner)]) :
    IntegerIn root i (field.target :: place) rows := by
  obtain ⟨relation, hrelation, -⟩ := Option.map_eq_some_iff.1 hkind
  have htype : field.isRelation = true := hfield.isRelation_iff.2 ⟨relation, hrelation⟩
  have hpart := part?_conditions id htype hspec inner
  rw [relationFragment?_toOne hkind _ hinner.compileRows_ne_nil] at hpart
  refine integerIn_of_part? hgrounded hfield halone hpart (distinct_compileRows inner)
    hinner.grounded.keys_ne_empty hinner.left hinner.first fun hinteger other hother hshape => ?_
  obtain ⟨hspecs, hsame, again, hagain, hreach⟩ := exists_relation_of_shape hother hshape hrelation
  have htype' : other.isRelation = true := hother.isRelation_iff.2 ⟨again, hagain⟩
  have hkind' := hsame.trans hkind
  have hwritten := hinner.again hinteger _ hreach
  have hword : ∀ operator : Operator, operator.isRelation = true →
      Entries.get? (Query.reread (compileRows inner)) operator.word = none := by
    intro operator hoperator
    refine Entries.get?_eq_none.2 fun hkey => ?_
    obtain ⟨own, ⟨scope, hscope, hmem⟩, htarget⟩ := hinner.grounded.exists_field
      (Query.mem_keys_of_reread hinner.grounded.keys_ne_empty hkey)
    exact target_ne_word hscope.proper hmem hoperator htarget
  have hrows := headRows_toOne htype' hkind' (hspecs ▸ hspec) hword
  rw [operatorsAgain_kept htype' hagain (operator_of_toOne htype hkind hspec).1 hrows
    (relationFragment?_toOne hkind' _ (ne_nil_of_at? hwritten rfl)) (distinct_compileRows _)]
  exact hwritten

/-- A row on a relation to many items that is alone at its target, with an integer in the rows
inside it. -/
theorem integerIn_toMany (hgrounded : Grounded root rows) (hfield : Known root field)
    (hkind : field.kind? = some .toMany) (hspec : spec ∈ field.specs)
    (hinner : IntegerIn root i place inner) (id : Option RowId)
    (halone : rows.filter (Condition.isAt field.target) =
      [.row id field spec.label (.conditions inner)]) :
    IntegerIn root i (field.target :: spec.operator.word :: place) rows := by
  obtain ⟨relation, hrelation, -⟩ := Option.map_eq_some_iff.1 hkind
  have htype : field.isRelation = true := hfield.isRelation_iff.2 ⟨relation, hrelation⟩
  have hbelow : ∀ filter, Json.at? (spec.operator.word :: place)
      (.object (single spec.operator (.object filter))) = Json.at? place (.object filter) := by
    intro filter
    rw [Json.at?_object_cons, single, Entries.get?_cons_self, Option.bind_some]
  have hread := Query.reread_singleton (word_ne_empty spec.operator)
    hinner.grounded.keys_ne_empty hinner.left
  have hpart := part?_conditions id htype hspec inner
  rw [relationFragment?_toMany hkind] at hpart
  refine integerIn_of_part? hgrounded hfield halone hpart (List.nodup_singleton _) ?_
    (hread ▸ List.cons_ne_nil _ _) ((hbelow _).trans hinner.first)
    fun hinteger other hother hshape => ?_
  · intro key hkey
    rw [List.mem_singleton.1 hkey]
    exact word_ne_empty spec.operator
  obtain ⟨hspecs, hsame, again, hagain, hreach⟩ := exists_relation_of_shape hother hshape hrelation
  have htype' : other.isRelation = true := hother.isRelation_iff.2 ⟨again, hagain⟩
  have hkind' := hsame.trans hkind
  have hrows := headRows_toMany htype' hkind' (hspecs ▸ hspec)
    (Query.reread (compileRows inner))
  rw [single, hread, ← single, operatorsAgain_kept htype' hagain
    (operator_of_toMany htype hkind hspec).1 hrows (relationFragment?_toMany hkind' _ _)
    (List.nodup_singleton _), hbelow]
  exact hinner.again hinteger _ hreach

/-- The place of what stands at a place inside a relation. -/
def placeInside (field : Field Scope) (operator : Operator) (place : List String) : List String :=
  match field.kind? with
  | some .toMany => field.target :: operator.word :: place
  | some .toOne | none => field.target :: place

/-- A row on a relation that is alone at its target, with an integer in the rows inside it. -/
theorem integerIn_relation (hgrounded : Grounded root rows) (hfield : Known root field)
    (htype : field.isRelation = true) (hspec : spec ∈ field.specs)
    (hinner : IntegerIn root i place inner) (id : Option RowId)
    (halone : rows.filter (Condition.isAt field.target) =
      [.row id field spec.label (.conditions inner)]) :
    IntegerIn root i (placeInside field spec.operator place) rows := by
  obtain ⟨relation, hrelation⟩ := hfield.isRelation_iff.1 htype
  have hkind := kind?_eq_some hrelation
  unfold placeInside
  cases hcount : relation.kind with
  | toOne =>
    rw [hcount] at hkind
    rw [hkind]
    exact integerIn_toOne hgrounded hfield hkind hspec hinner id halone
  | toMany =>
    rw [hcount] at hkind
    rw [hkind]
    exact integerIn_toMany hgrounded hfield hkind hspec hinner id halone

end Relations

end QueryFilter
