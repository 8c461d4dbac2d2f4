import QueryFilter.Proofs.Filter.Bounds
import QueryFilter.Proofs.Filter.Quantified

/-!
# When a filter is stable

Rows that an editor permits are compiled to a filter, which is restored and compiled again.  The
filter stays the same, up to the order of keys, if and only if the bounds of the rows are kept at
every level of relations (`stable_iff_boundsKept`).

On a scalar field this is `same_written_iff`.  On a relation the filters inside are restored unread
and compiled in their turn, so that the induction on levels goes through.
-/

namespace QueryFilter

open Catalog Compile Restore

/-! ### Choices on a field -/

variable {scope : Scope} {rows : List (Condition Scope)} {field : Field Scope}

/-- The filters inside the choices on a relation are stable. -/
def KeptBelow (choices : List (Operator × Value Scope)) : Prop :=
  ∀ operator inner, (operator, .conditions inner) ∈ choices → BoundsKept inner

/-- Rows write on a field what the choices on it write. -/
theorem parts_eq (hproper : scope.Proper) (hrows : ∀ row ∈ rows, RowOver scope row)
    (hfield : field ∈ fieldsOf scope) :
    (rows.filter (Condition.isAt field.target)).filterMap part? =
      (choicesOn field rows).filterMap (choicePart? field) := by
  rw [filter_isAt_eq hproper hrows hfield, choicesOn, List.filterMap_filterMap]
  refine List.filterMap_congr fun row hrow => ?_
  obtain ⟨hmem, hon⟩ := List.mem_filter.1 hrow
  have hparent : row.parent = none := by
    cases hrows row hmem <;> rfl
  exact part?_eq ((hrows row hmem).subject_of_isOn hfield hon) hparent

/-- Bounds are kept if and only if they are on each field, and inside the choices on it. -/
theorem boundsKept_iff_choices (hrows : ∀ row ∈ rows, RowOver scope row) : BoundsKept rows ↔
    ∀ field ∈ fieldsOf scope,
      ChoicesKept field.type (choicesOn field rows) ∧ KeptBelow (choicesOn field rows) := by
  rw [boundsKept_iff]
  constructor
  · rintro ⟨hkept, hbelow⟩ field hfield
    constructor
    · by_cases hempty : choicesOn field rows = []
      · rw [hempty]
        exact choicesKept_nil field.type
      · obtain ⟨choice, hchoice⟩ := List.exists_mem_of_ne_nil _ hempty
        obtain ⟨row, hrow, heq⟩ := List.mem_filterMap.1 hchoice
        obtain ⟨hmem, hsubject, -⟩ := exists_row_of_choice hrows hfield hrow heq
        exact hkept row hmem field (Condition.field?_eq_some.2 hsubject)
    · intro operator inner hchoice
      obtain ⟨row, hrow, heq⟩ := List.mem_filterMap.1 hchoice
      obtain ⟨hmem, hsubject, spec, hspec, hlabel, hpair⟩ :=
        exists_row_of_choice hrows hfield hrow heq
      have hvalue : row.value = .conditions inner := (Prod.mk.inj hpair).2.symm
      -- only rows on relations hold rows
      cases hrows row hmem with
      | scalar id hfield' hrelation hspec' hcanonical =>
        exact absurd hvalue (hcanonical.ne_conditions inner)
      | @related id other relation spec' inner' hfield' hrelation hspec' hinner =>
        obtain rfl := Value.conditions.inj hvalue
        exact hbelow _ hmem relation inner' ⟨other, rfl, hrelation, rfl⟩
  · intro h
    constructor
    · intro row hrow field hsome
      obtain ⟨other, hother, _, _, hsubject, _⟩ := (hrows row hrow).exists_spec
      rw [Condition.field?_eq_some.2 hsubject] at hsome
      obtain rfl := Option.some.inj hsome
      exact (h other hother).1
    · rintro row hrow relation inner ⟨field, hsubject, -, hvalue⟩
      obtain ⟨other, hother, spec, hspec, hsubject', hlabel⟩ := (hrows row hrow).exists_spec
      obtain rfl := Subject.field.inj (hsubject'.symm.trans hsubject)
      refine (h other hother).2 spec.operator inner (List.mem_filterMap.2 ⟨row, ?_, ?_⟩)
      · exact List.mem_filter.2 ⟨hrow, isOn_of_subject hsubject⟩
      · rw [hlabel, FieldType.operator?_label hspec, hvalue, Option.map_some]

/-! ### Relations -/

/-- The operators of a type of relations are no bounds. -/
theorem choicesKept_relation {choices : List (Operator × Value Scope)}
    (hoffered : ∀ choice ∈ choices, choice.1 ∈ FieldType.relation.specs.map OperatorSpec.operator) :
    ChoicesKept .relation choices := by
  have hdata : ∀ operator ∈ FieldType.relation.specs.map OperatorSpec.operator,
      operator ≠ .between ∧ operator ≠ .gte := by decide
  apply choicesKept_of_not_hasBounds
  rintro (⟨_, h⟩ | ⟨⟨_, h⟩, -⟩)
  · exact (hdata _ (hoffered _ h)).1 rfl
  · exact (hdata _ (hoffered _ h)).2 rfl

/-- What holds of the rows of one level: they have a filter, with targets of the scope as keys,
which says the same after it was restored and compiled again if and only if bounds are kept. -/
structure LevelStable (scope : Scope) (rows : List (Condition Scope)) : Prop where
  targets : ∀ key ∈ Entries.keys (compileRows rows), ∃ field ∈ fieldsOf scope, field.target = key
  ne_nil : rows ≠ [] → compileRows rows ≠ []
  same_iff : Json.Same (.object (recompiled scope (compileRows rows)))
    (.object (compileRows rows)) ↔ BoundsKept rows

/-- What holds of the choices on one field: they write, and what they write says the same after it
was restored and compiled again if and only if bounds are kept. -/
structure FieldStable (field : Field Scope) (choices : List (Operator × Value Scope)) : Prop where
  ne_nil : united (choices.filterMap (choicePart? field)) ≠ []
  same_iff : Json.Same
    (.object (operatorsAgain field (united (choices.filterMap (choicePart? field)))))
    (.object (united (choices.filterMap (choicePart? field)))) ↔
      ChoicesKept field.type choices ∧ KeptBelow choices

/-- Choices on a scalar field. -/
theorem fieldStable_scalar (hscalar : field.isRelation = false)
    {choices : List (Operator × Value Scope)} (hcompatible : CompatibleChoices field.type choices)
    (hcanonical : ∀ choice ∈ choices, CanonicalValue field.type choice.1 choice.2)
    (hne : choices ≠ []) : FieldStable field choices := by
  have hwritten : united (choices.filterMap (choicePart? field)) = written field.type choices := by
    rw [choicePart?_scalar hscalar, written]
  have hbelow : KeptBelow choices := by
    intro operator inner hchoice
    exact absurd rfl ((hcanonical _ hchoice).ne_conditions inner)
  constructor
  · rw [hwritten]
    exact written_ne_nil hcompatible.offered hcanonical hne
  · rw [hwritten, operatorsAgain_scalar hscalar]
    have hsame := same_written_iff hcompatible hcanonical
    rw [writtenAgain] at hsame
    rw [hsame]
    exact (and_iff_left hbelow).symm

section Related

variable {relation : Relation Scope}

/-- The choice on a relation to one item. -/
theorem fieldStable_toOne (htype : field.isRelation = true)
    (hrelation : field.relation = some relation) (hkind : field.kind? = some .toOne)
    (hproper : relation.scope.Proper) {spec : OperatorSpec} (hspec : spec ∈ field.specs)
    {inner : List (Condition Scope)} (hinner : inner ≠ [])
    (hlevel : LevelStable relation.scope inner) :
    FieldStable field [(spec.operator, .conditions inner)] := by
  have hne := hlevel.ne_nil hinner
  obtain ⟨hmem, -⟩ := operator_of_toOne htype hkind hspec
  have heq := type_eq_relation htype
  have hpart : choicePart? field (spec.operator, .conditions inner) = some (compileRows inner) := by
    rw [choicePart?, fragmentWith?_conditions htype, relationFragment?_toOne hkind _ hne]
  have hwritten : united ([(spec.operator, .conditions inner)].filterMap (choicePart? field)) =
      compileRows inner := by
    rw [List.filterMap_cons_some hpart, List.filterMap_nil]
    exact Entries.extend_nil_left (distinct_compileRows inner)
  have hword : ∀ operator : Operator, operator.isRelation = true →
      Entries.get? (compileRows inner) operator.word = none := by
    intro operator hoperator
    rw [Entries.get?_eq_none]
    intro hkey
    obtain ⟨other, hother, htarget⟩ := hlevel.targets _ hkey
    exact target_ne_word hproper hother hoperator htarget
  have hagain := operatorsAgain_single htype hrelation hkind (innerFilters_implicit hkind hword)
  constructor
  · rw [hwritten]
    exact hne
  · rw [hwritten, hagain, hlevel.same_iff]
    have hkept : ChoicesKept field.type [(spec.operator, (.conditions inner : Value Scope))] := by
      rw [heq]
      refine choicesKept_relation fun choice hchoice => ?_
      rw [List.mem_singleton.1 hchoice]
      exact List.mem_map_of_mem hmem
    constructor
    · intro h
      refine ⟨hkept, fun operator inner' hchoice => ?_⟩
      obtain ⟨-, heq⟩ := Prod.mk.inj (List.mem_singleton.1 hchoice)
      rw [Value.conditions.inj heq]
      exact h
    · rintro ⟨-, hbelow⟩
      exact hbelow _ _ List.mem_cons_self

/-- The choices on a relation to many items. -/
theorem fieldStable_toMany (htype : field.isRelation = true)
    (hrelation : field.relation = some relation) (hkind : field.kind? = some .toMany)
    {pairs : List (Operator × List (Condition Scope))} (hne : pairs ≠ [])
    (hnodup : (pairs.map Prod.fst).Nodup)
    (hspecs : ∀ pair ∈ pairs, ∃ spec ∈ field.specs, spec.operator = pair.1)
    (hlevels : ∀ pair ∈ pairs, LevelStable relation.scope pair.2) :
    FieldStable field (pairs.map fun pair => (pair.1, .conditions pair.2)) := by
  have heq := type_eq_relation htype
  let filters := pairs.map fun pair => (pair.1, compileRows pair.2)
  have hfilters : (filters.map Prod.fst).Nodup := by
    rw [List.map_map]
    exact hnodup
  have hquantifiers : ∀ pair ∈ filters, pair.1 ∈ quantifiers := by
    intro written hwritten
    obtain ⟨pair, hpair, rfl⟩ := List.mem_map.1 hwritten
    obtain ⟨spec, hspec, hoperator⟩ := hspecs pair hpair
    rw [← hoperator]
    exact (operator_of_toMany htype hkind hspec).2
  have hwritten : united ((pairs.map fun pair => (pair.1, Value.conditions pair.2)).filterMap
      (choicePart? field)) = quantifiedBy filters := by
    rw [← united_singles hfilters, List.filterMap_map, List.map_map, ← List.filterMap_eq_map]
    congr 1
    refine List.filterMap_congr fun pair _ => ?_
    rw [Function.comp_apply, choicePart?, fragmentWith?_conditions htype,
      relationFragment?_toMany hkind]
    rfl
  have hmem := mem_quantified hfilters hquantifiers
  obtain ⟨first, hfirst⟩ := List.exists_mem_of_ne_nil pairs hne
  have hfirst : (first.1, compileRows first.2) ∈ filters := List.mem_map_of_mem hfirst
  have hfound : quantified (quantifiedBy filters) ≠ [] :=
    List.ne_nil_of_mem ((hmem _).2 hfirst)
  constructor
  · rw [hwritten]
    exact List.ne_nil_of_mem (List.mem_map_of_mem hfirst)
  · rw [hwritten, operatorsAgain_quantified htype hrelation hkind hfound,
      same_quantifiedBy_iff _ hfilters (nodup_quantified _) hmem]
    have hkept : ChoicesKept field.type
        (pairs.map fun pair => (pair.1, (.conditions pair.2 : Value Scope))) := by
      rw [heq]
      refine choicesKept_relation fun choice hchoice => ?_
      obtain ⟨pair, hpair, rfl⟩ := List.mem_map.1 hchoice
      obtain ⟨spec, hspec, hoperator⟩ := hspecs pair hpair
      refine List.mem_map.2 ⟨spec, ?_, hoperator⟩
      exact (operator_of_toMany htype hkind hspec).1
    constructor
    · intro h
      refine ⟨hkept, fun operator inner hchoice => ?_⟩
      obtain ⟨pair, hpair, hentry⟩ := List.mem_map.1 hchoice
      obtain ⟨-, hvalue⟩ := Prod.mk.inj hentry
      obtain rfl := Value.conditions.inj hvalue
      exact (hlevels pair hpair).same_iff.1 (h _ (List.mem_map_of_mem hpair))
    · rintro ⟨-, hbelow⟩ written hwritten
      obtain ⟨pair, hpair, rfl⟩ := List.mem_map.1 hwritten
      exact (hlevels pair hpair).same_iff.2 (hbelow _ _ (List.mem_map_of_mem hpair))

end Related

/-! ### One level -/

/-- The choices on a relation, with the rows inside them. -/
theorem exists_pairs (hrows : ∀ row ∈ rows, RowOver scope row) (hfield : field ∈ fieldsOf scope)
    {relation : Relation Scope} (hrelation : field.relation = some relation) :
    ∃ pairs : List (Operator × List (Condition Scope)),
      (pairs.map fun pair => (pair.1, (.conditions pair.2 : Value Scope))) = choicesOn field rows ∧
        ∀ pair ∈ pairs, (∃ spec ∈ field.specs, spec.operator = pair.1) ∧
          (relation.kind = .toOne → pair.2 ≠ []) ∧ ∃ row ∈ rows, row.Leads relation pair.2 := by
  refine exists_map_eq fun choice hchoice => ?_
  obtain ⟨row, hrow, heq⟩ := List.mem_filterMap.1 hchoice
  obtain ⟨hmem, hsubject, spec, hspec, hlabel, rfl⟩ := exists_row_of_choice hrows hfield hrow heq
  have hrowOver := hrows row hmem
  cases hrowOver with
  | scalar id hfield' hrelation' hspec' hvalue =>
    obtain rfl := Subject.field.inj hsubject
    rw [hrelation] at hrelation'
    exact absurd hrelation' (by simp)
  | @related id other relation' spec' inner hfield' hrelation' hspec' hinner =>
    obtain rfl := Subject.field.inj hsubject
    obtain rfl := Option.some.inj (hrelation.symm.trans hrelation')
    have hlabels : spec'.label = spec.label := hlabel
    have hoperator := FieldType.operator?_label (Field.mem_specs_of_mem hspec')
    rw [hlabels, FieldType.operator?_label hspec] at hoperator
    refine ⟨(spec'.operator, inner), ?_, ⟨spec', hspec', rfl⟩, hinner, _, hmem, other, rfl,
      hrelation, rfl⟩
    rw [← Option.some.inj hoperator]

/-- The choices on each field of a level are stable if the levels below are. -/
theorem fieldStable {root : Resource} (hreach : Reaches root scope) (hrule : Compatible rows)
    (hrows : ∀ row ∈ rows, RowOver scope row)
    (hbelow : ∀ row ∈ rows, ∀ relation inner, row.Leads relation inner →
      LevelStable relation.scope inner)
    (hfield : field ∈ fieldsOf scope) (hne : choicesOn field rows ≠ []) :
    FieldStable field (choicesOn field rows) := by
  have hcompatible := hrule.choicesOn hrows hfield
  have hisRelation := isRelation_eq hreach.proper hfield
  cases hrelation : field.relation with
  | none =>
    rw [hrelation, Option.isSome_none] at hisRelation
    exact fieldStable_scalar hisRelation hcompatible
      (canonical_choicesOn hrows hfield hrelation) hne
  | some relation =>
    rw [hrelation, Option.isSome_some] at hisRelation
    obtain ⟨pairs, hpairs, hall⟩ := exists_pairs hrows hfield hrelation
    have hnodup := hcompatible.nodup
    rw [← hpairs] at hne hnodup ⊢
    rw [List.map_map] at hnodup
    have hpairs_ne : pairs ≠ [] := fun h => hne (h ▸ rfl)
    have hlevels : ∀ pair ∈ pairs, LevelStable relation.scope pair.2 := by
      intro pair hpair
      obtain ⟨-, -, row, hrow, hleads⟩ := hall pair hpair
      exact hbelow row hrow relation pair.2 hleads
    have hkind := kind?_eq_some hrelation
    cases hk : relation.kind with
    | toMany =>
      rw [hk] at hkind
      exact fieldStable_toMany hisRelation hrelation hkind hpairs_ne hnodup
        (fun pair hpair => (hall pair hpair).1) hlevels
    | toOne =>
      rw [hk] at hkind
      -- a relation to one item offers one operator, which excludes itself
      obtain ⟨pair, rfl⟩ : ∃ pair, pairs = [pair] := by
        have hrelated : ∀ pair ∈ pairs, pair.1 = .related := by
          intro pair hpair
          obtain ⟨spec, hspec, hoperator⟩ := (hall pair hpair).1
          rw [← hoperator]
          exact (operator_of_toOne hisRelation hkind hspec).2
        match pairs, hpairs_ne, hnodup, hrelated with
        | [pair], _, _, _ => exact ⟨pair, rfl⟩
        | first :: second :: _, _, hnodup, hrelated =>
          have hfirst := hrelated first List.mem_cons_self
          have hsecond := hrelated second (List.mem_cons_of_mem _ List.mem_cons_self)
          have hhead := (List.nodup_cons.1 hnodup).1
          refine absurd ?_ hhead
          change first.1 ∈ second.1 :: _
          rw [hfirst, hsecond]
          exact List.mem_cons_self
      obtain ⟨⟨spec, hspec, hoperator⟩, hinner, -⟩ := hall pair List.mem_cons_self
      have hproper : relation.scope.Proper := (hreach.step hfield hrelation).proper
      have hstable := fieldStable_toOne hisRelation hrelation hkind hproper hspec (hinner hk)
        (hlevels pair List.mem_cons_self)
      rw [hoperator] at hstable
      exact hstable

/-- A level is stable if the levels below it are. -/
theorem levelStable_of_below {root : Resource} (hreach : Reaches root scope)
    (hrule : Compatible rows) (hrows : ∀ row ∈ rows, RowOver scope row)
    (hbelow : ∀ row ∈ rows, ∀ relation inner, row.Leads relation inner →
      LevelStable relation.scope inner) : LevelStable scope rows := by
  have hstable := fun field (hfield : field ∈ fieldsOf scope) =>
    fieldStable hreach hrule hrows hbelow hfield
  have hoperators : ∀ field ∈ fieldsOf scope, operatorsOn field rows =
      united ((choicesOn field rows).filterMap (choicePart? field)) := by
    intro field hfield
    rw [operatorsOn, parts_eq hreach.proper hrows hfield]
  -- a target is written exactly if its field has a choice
  have hkeys : ∀ field ∈ fieldsOf scope,
      (field.target ∈ Entries.keys (compileRows rows) ↔ choicesOn field rows ≠ []) := by
    intro field hfield
    rw [mem_keys_compileRows_iff, parts_eq hreach.proper hrows hfield]
    constructor
    · intro hparts hnil
      rw [hnil] at hparts
      exact hparts rfl
    · intro hne hnil
      have hwritten := (hstable field hfield hne).ne_nil
      rw [hnil] at hwritten
      exact hwritten rfl
  have htargets : ∀ key ∈ Entries.keys (compileRows rows), ∃ field ∈ fieldsOf scope,
      field.target = key := by
    intro key hkey
    obtain ⟨row, hrow, fragment, hwrites⟩ := mem_keys_compileRows.1 hkey
    obtain ⟨field, hfield, -, htarget⟩ := (hrows row hrow).exists_target hwrites
    exact ⟨field, hfield, htarget⟩
  refine ⟨htargets, ?_, ?_⟩
  · intro hne
    obtain ⟨row, hrow⟩ := List.exists_mem_of_ne_nil rows hne
    obtain ⟨field, hfield, spec, hspec, hsubject, hlabel⟩ := (hrows row hrow).exists_spec
    have hchoice : (spec.operator, row.value) ∈ choicesOn field rows := by
      refine List.mem_filterMap.2 ⟨row, List.mem_filter.2 ⟨hrow, isOn_of_subject hsubject⟩, ?_⟩
      rw [hlabel, FieldType.operator?_label hspec, Option.map_some]
    have hkey := (hkeys field hfield).2 (List.ne_nil_of_mem hchoice)
    intro hnil
    rw [hnil] at hkey
    exact absurd hkey List.not_mem_nil
  · have hwritten : ∀ field ∈ fieldsOf scope,
        field.target ∈ Entries.keys (compileRows rows) → operatorsOn field rows ≠ [] := by
      intro field hfield hkey
      rw [hoperators field hfield]
      exact (hstable field hfield ((hkeys field hfield).1 hkey)).ne_nil
    -- both sides are compared field by field
    rw [same_recompiled_iff hreach htargets hwritten, boundsKept_iff_choices hrows]
    constructor
    · intro h field hfield
      by_cases hempty : choicesOn field rows = []
      · rw [hempty]
        exact ⟨choicesKept_nil field.type, fun _ _ hmem => absurd hmem List.not_mem_nil⟩
      · have hsame := h field hfield ((hkeys field hfield).2 hempty)
        rw [hoperators field hfield] at hsame
        exact (hstable field hfield hempty).same_iff.1 hsame
    · intro h field hfield hkey
      rw [hoperators field hfield]
      exact (hstable field hfield ((hkeys field hfield).1 hkey)).same_iff.2 (h field hfield)

/-- Every level of rows that an editor permits is stable if and only if bounds are kept. -/
theorem levelStable {root : Resource} (hreach : Reaches root scope)
    (h : Edited Compatible scope rows) : LevelStable scope rows := by
  induction h with
  | level hrule hrows hbelow ih =>
    apply levelStable_of_below hreach hrule hrows
    rintro row hrow relation inner ⟨field, hsubject, hrelation, hvalue⟩
    obtain ⟨other, hother, _, _, hsubject', _⟩ := (hrows row hrow).exists_spec
    obtain rfl := Subject.field.inj (hsubject'.symm.trans hsubject)
    exact ih row hrow relation inner ⟨other, hsubject, hrelation, hvalue⟩
      (hreach.step hother hrelation)

/-! ### All levels -/

/-- Stability: rows that an editor permits are compiled to a filter, from which rows are restored
that are compiled to the same filter, up to the order of keys, if and only if bounds are kept. -/
theorem stable_iff_boundsKept (resource : Resource) {rows : List (Condition Scope)}
    (hne : rows ≠ []) (h : Edited Compatible (.root resource) rows) :
    ∃ filter, compile rows = some filter ∧
      ((∃ again, compile (restore (fields resource) filter) = some again ∧
        Json.Same (.object again) (.object filter)) ↔ BoundsKept rows) := by
  have hlevel := levelStable (.start : Reaches resource _) h
  have hfilter := hlevel.ne_nil hne
  refine ⟨compileRows rows, compile_of_ne_nil hne, ?_⟩
  rw [← hlevel.same_iff]
  constructor
  · rintro ⟨again, hagain, hsame⟩
    have heq := getD_compile (restore (fields resource) (compileRows rows))
    rw [hagain, Option.getD_some] at heq
    rw [heq] at hsame
    exact hsame
  · intro hsame
    refine ⟨_, compile_of_ne_nil ?_, hsame⟩
    intro hnil
    obtain ⟨entry, hentry⟩ := List.exists_mem_of_ne_nil _ hfilter
    have hkey := ((Json.same_object_iff.1 hsame).1 entry.1).2 (Entries.mem_keys_of_mem hentry)
    have hempty : recompiled (Scope.root resource) (compileRows rows) = [] := by
      rw [recompiled]
      change compileRows (restore (fields resource) (compileRows rows)) = []
      rw [hnil, compileRows_nil]
    rw [hempty] at hkey
    exact absurd hkey List.not_mem_nil

/-! ### An example -/

/-- Staff from eighteen to sixty-five, but not thirty. -/
def boundedRows : List (Condition Scope) :=
  [⟨some ⟨1⟩, .field (.scalar .number "age" "Idade"), "maior ou igual a", .text "18", none⟩,
    ⟨some ⟨2⟩, .field (.scalar .number "age" "Idade"), "menor ou igual a", .text "65", none⟩,
    ⟨some ⟨3⟩, .field (.scalar .number "age" "Idade"), "diferente de", .text "30", none⟩]

/-- The rows on ages are compatible rows of an editor. -/
theorem edited_boundedRows : Edited Compatible (.root .staff) boundedRows := by
  have hfield : (.scalar .number "age" "Idade" : Field Scope) ∈ fieldsOf (.root .staff) := by
    simp [fieldsOf, Scope.root]
  have hcanonical : ∀ s i, Operand.number? s = some (.integer i) →
      (Number.integer i).text = s → Operand.IsCanonicalNumber s := by
    intro s i hread htext n hn
    rw [hread] at hn
    rw [← Option.some.inj hn]
    exact htext
  refine .level ⟨?_, by decide, ?_⟩ ?_ ?_
  · intro row hrow
    simp only [boundedRows, List.mem_cons, List.not_mem_nil, or_false] at hrow
    rcases hrow with rfl | rfl | rfl <;> exact Option.some_ne_none _
  · intro row hrow field hsome
    simp only [boundedRows, List.mem_cons, List.not_mem_nil, or_false] at hrow
    rcases hrow with rfl | rfl | rfl <;> obtain rfl := Option.some.inj hsome <;> decide
  · intro row hrow
    simp only [boundedRows, List.mem_cons, List.not_mem_nil, or_false] at hrow
    rcases hrow with rfl | rfl | rfl
    · have hspec : (⟨"maior ou igual a", .gte, "≥"⟩ : OperatorSpec) ∈ FieldType.number.specs := by
        decide
      have hvalue : CanonicalValue .number .gte (.text "18" : Value Scope) :=
        .number (by decide) (hcanonical "18" 18 (by decide) (by decide))
      exact .scalar _ hfield rfl hspec hvalue
    · have hspec : (⟨"menor ou igual a", .lte, "≤"⟩ : OperatorSpec) ∈ FieldType.number.specs := by
        decide
      have hvalue : CanonicalValue .number .lte (.text "65" : Value Scope) :=
        .number (by decide) (hcanonical "65" 65 (by decide) (by decide))
      exact .scalar _ hfield rfl hspec hvalue
    · have hspec : (⟨"diferente de", .differs, "≠"⟩ : OperatorSpec) ∈ FieldType.number.specs := by
        decide
      have hvalue : CanonicalValue .number .differs (.text "30" : Value Scope) :=
        .number (by decide) (hcanonical "30" 30 (by decide) (by decide))
      exact .scalar _ hfield rfl hspec hvalue
  · rintro row hrow relation inner ⟨field, hsubject, hrelation, -⟩
    simp only [boundedRows, List.mem_cons, List.not_mem_nil, or_false] at hrow
    rcases hrow with rfl | rfl | rfl <;> obtain rfl := Subject.field.inj hsubject <;>
      exact absurd hrelation (by simp [Field.scalar])

/-- The filter of the rows, and the filter after it was restored and compiled again. -/
theorem boundedRows_not_stable :
    Edited Compatible (.root .staff) boundedRows ∧
      ∃ filter again, compile boundedRows = some filter ∧
        filter = [("age", .object [("gte", .number (.integer 18)),
          ("lte", .number (.integer 65)), ("not", .number (.integer 30))])] ∧
        compile (restore (fields .staff) filter) = some again ∧
        again = [("age", .object [("gte", .number (.integer 18)),
          ("lte", .number (.integer 65))])] ∧
        ¬ Json.Same (.object again) (.object filter) := by
  have hfirst : compileRows boundedRows = [("age", .object [("gte", .number (.integer 18)),
      ("lte", .number (.integer 65)), ("not", .number (.integer 30))])] := by
    rw [compileRows_eq]
    unfold fragment? fragmentWith?
    rfl
  have hrestored : restore (fields .staff) [("age", .object [("gte", .number (.integer 18)),
      ("lte", .number (.integer 65)), ("not", .number (.integer 30))])] =
        [⟨none, .field (.scalar .number "age" "Idade"), "entre", .text "18,65", none⟩] := rfl
  have hsecond : compileRows [(⟨none, .field (.scalar .number "age" "Idade"), "entre",
      .text "18,65", none⟩ : Condition Scope)] = [("age", .object [("gte", .number (.integer 18)),
        ("lte", .number (.integer 65))])] := by
    rw [compileRows_eq]
    unfold fragment? fragmentWith?
    rfl
  refine ⟨edited_boundedRows, _, _, ?_, rfl, ?_, rfl, ?_⟩
  · have hne : boundedRows ≠ [] := List.cons_ne_nil _ _
    rw [compile_of_ne_nil hne, hfirst]
  · rw [hrestored, compile_of_ne_nil (List.cons_ne_nil _ _), hsecond]
  · intro hsame
    have hoperators := (Json.same_object_iff.1 hsame).2 "age" _ _ rfl rfl
    have hkey := (Json.same_object_iff.1 hoperators).1 "not"
    exact absurd (hkey.2 (by decide)) (by decide)

/-- The rows on ages are stable exactly if their bounds are kept. -/
theorem boundedRows_stable_iff :
    ∃ filter, compile boundedRows = some filter ∧
      ((∃ again, compile (restore (fields .staff) filter) = some again ∧
        Json.Same (.object again) (.object filter)) ↔ BoundsKept boundedRows) :=
  stable_iff_boundsKept .staff (List.cons_ne_nil _ _) edited_boundedRows

end QueryFilter
