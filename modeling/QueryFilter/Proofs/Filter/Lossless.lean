import QueryFilter.Proofs.Condition.Compatible
import QueryFilter.Proofs.Filter.Grounded
import QueryFilter.Proofs.Filter.Joined
import QueryFilter.Proofs.Filter.Offered
import QueryFilter.Proofs.Filter.Written

/-!
# Rows that an editor permits are compiled without loss

At one path a filter keeps the operand that was written last.  No operand is lost among rows whose
operators are all enabled (`Permitted`): operators that do not exclude each other write different
words (`Operator.not_mem_writes`), and the mode is the same wherever it is written.  So all that a
row writes is found in the filter (`compile_lossless`).

A relation to one item writes the operators of the filter inside it, which may be any; but its only
operator excludes itself, so that no other row writes at its path.

Nothing is asked of the names of fields, and there may be rows from inside relations: they write
nothing.
-/

namespace QueryFilter

open Catalog Compile

variable {σ : Type}

/-! ### Words of an operator -/

/-- The operators whose words a row with some operator writes: a range writes its bounds. -/
def Operator.writes : Operator → List Operator
  | .between => [.gte, .lte]
  | operator => [operator]

/-- Operators that do not exclude each other write different words. -/
theorem Operator.not_mem_writes {type : FieldType} {a b : OperatorSpec} (ha : a ∈ type.specs)
    (hb : b ∈ type.specs) (h : a.operator.excludes type b.operator = false) :
    ∀ operator ∈ a.operator.writes, operator ∉ b.operator.writes := by
  have hdata : ∀ a ∈ type.specs, ∀ b ∈ type.specs, a.operator.excludes type b.operator = false →
      ∀ operator ∈ a.operator.writes, operator ∉ b.operator.writes := by
    cases type <;> decide
  exact hdata a ha b hb h

/-- A fragment has words of an operator, each at most once, and at most the mode beside them. -/
structure FragmentOf (operator : Operator) (part : Object) : Prop where
  distinct : Entries.Distinct part
  entries : ∀ entry ∈ part, entry = (modeKey, .string insensitive) ∨
    ∃ written ∈ operator.writes, entry.1 = written.word

namespace FragmentOf

/-- One operator with an operand, and the mode if the type has one. -/
theorem plain {operator : Operator} (h : operator ≠ .between) (type : FieldType) (operand : Json) :
    FragmentOf operator (single operator operand ++ modeEntries type) := by
  have hwrites : operator ∈ operator.writes := by
    revert h
    cases operator <;> decide
  rw [← withMode_single]
  constructor
  · refine distinct_withMode (List.nodup_singleton _) fun hmode => ?_
    exact word_ne_modeKey operator (List.mem_singleton.1 hmode).symm
  · intro entry hentry
    rcases mem_withMode.1 hentry with hentry | ⟨-, -, hmode⟩
    · rw [List.mem_singleton.1 hentry]
      exact .inr ⟨operator, hwrites, rfl⟩
    · exact .inl hmode

/-- The bounds of a range. -/
theorem range {type : FieldType} {value : Value σ} {part : Object}
    (h : rangeFragment? type value = some part) : FragmentOf .between part where
  distinct := (distinct_rangeFragment? h).2
  entries := by
    intro entry hentry
    obtain ⟨operator, hoperator, _, _, _, rfl⟩ := mem_rangeFragment? h hentry
    have hwrites : operator ∈ Operator.between.writes := by
      rcases hoperator with rfl | rfl <;> decide
    exact .inr ⟨operator, hwrites, rfl⟩

/-- What a scalar field writes for an operator of its type. -/
theorem scalar {type : FieldType} {spec : OperatorSpec} (hspec : spec ∈ type.specs)
    {value : Value σ} {part : Object} (h : scalarFragment? type spec.operator value = some part) :
    FragmentOf spec.operator part := by
  by_cases hrange : spec.operator = .between
  · have htype : type = .number ∨ type = .date := by
      have hdata : ∀ spec ∈ type.specs, spec.operator = .between →
          type = .number ∨ type = .date := by
        cases type <;> decide
      exact hdata spec hspec hrange
    rw [hrange] at h ⊢
    rcases htype with rfl | rfl
    · rw [scalarFragment?, if_pos rfl] at h
      exact range h
    · rw [scalarFragment?, if_pos rfl] at h
      exact range h
  · rw [scalarFragment?_eq hrange, Option.ite_none_left_eq_some, Option.some.injEq] at h
    rw [← h.2]
    exact plain hrange type _

/-- What a relation to many items writes for one of its operators. -/
theorem related {operator : Operator} (h : operator ≠ .between) (operand : Json) :
    FragmentOf operator (single operator operand) := by
  have hplain := plain h .relation operand
  rwa [modeEntries_of_ne (by decide), List.append_nil] at hplain

/-- Fragments without a common word agree: at most the mode is in both. -/
theorem agree {a b : Operator} (hapart : ∀ operator ∈ a.writes, operator ∉ b.writes)
    {part other : Object} (h : FragmentOf a part) (hother : FragmentOf b other)
    {entry entry' : String × Json} (hentry : entry ∈ part) (hentry' : entry' ∈ other)
    (hkey : entry.1 = entry'.1) : entry = entry' := by
  rcases h.entries entry hentry with rfl | ⟨written, hwritten, hword⟩
  · rcases hother.entries entry' hentry' with rfl | ⟨written', -, hword'⟩
    · rfl
    · exact absurd (hkey.trans hword').symm (word_ne_modeKey written')
  · rcases hother.entries entry' hentry' with rfl | ⟨written', hwritten', hword'⟩
    · exact absurd (hword.symm.trans hkey) (word_ne_modeKey written)
    · have heq : written = written' :=
        Operator.word_injective (hword.symm.trans (hkey.trans hword'))
      exact absurd (heq ▸ hwritten') (hapart written hwritten)

end FragmentOf

/-! ### Rows that an editor permits -/

/-- Rows over some fields, with offered operators and different identities, none of which has an
operator that is disabled on its field. -/
structure Permitted (fields : List (Field σ)) (rows : List (Condition σ)) : Prop where
  offered : ∀ row ∈ rows, ∃ field ∈ fields, row.field? = some field ∧ field.Offers row.operator
  distinct : (rows.map Condition.id).Nodup
  enabled : ∀ row ∈ rows, ∀ field, row.field? = some field →
    row.operator ∉ disabledLabels field rows row.id

/-- What a row writes: words of its operator, or the filter inside a relation to one item. -/
inductive RowWrites (field : Field σ) (spec : OperatorSpec) (part : Object) : Prop
  | words (h : FragmentOf spec.operator part)
  | inside (htype : field.isRelation = true) (hkind : field.kind? = some .toOne)
      (hdistinct : Entries.Distinct part)

/-- What a row writes has each operator once. -/
theorem RowWrites.distinct {field : Field σ} {spec : OperatorSpec} {part : Object}
    (h : RowWrites field spec part) : Entries.Distinct part := by
  cases h with
  | words h => exact h.distinct
  | inside _ _ hdistinct => exact hdistinct

/-- Operators of one field that do not exclude each other agree where they write the same. -/
theorem RowWrites.agree {field : Field σ} {a b : OperatorSpec} (ha : a ∈ field.specs)
    (hb : b ∈ field.specs) (hapart : a.operator.excludes field.type b.operator = false)
    {part other : Object} (h : RowWrites field a part) (hother : RowWrites field b other)
    {entry entry' : String × Json} (hentry : entry ∈ part) (hentry' : entry' ∈ other)
    (hkey : entry.1 = entry'.1) : entry = entry' := by
  have htoOne : field.isRelation = true → field.kind? ≠ some .toOne := by
    intro htype hkind
    have hall : Operator.related.excludes .relation b.operator = true := rfl
    rw [(operator_of_toOne htype hkind ha).2, type_eq_relation htype, hall] at hapart
    exact absurd hapart (by decide)
  cases h with
  | inside htype hkind _ => exact absurd hkind (htoOne htype)
  | words h =>
    cases hother with
    | inside htype hkind _ => exact absurd hkind (htoOne htype)
    | words hother =>
      have hwords := Operator.not_mem_writes (Field.mem_specs_of_mem ha)
        (Field.mem_specs_of_mem hb) hapart
      exact h.agree hwords hother hentry hentry' hkey

section Rows

variable [Schema σ]

/-- A row that writes does so at the target of its field. -/
theorem rowWrites_of_fragment? {row : Condition σ} {field : Field σ}
    (hfield : row.field? = some field) (hrelated : field.isRelation = true → field.relation ≠ none)
    {spec : OperatorSpec} (hspec : spec ∈ field.specs) (hoperator : row.operator = spec.label)
    {path : String} {part : Object} (h : fragment? row = some (path, part)) :
    path = field.target ∧ RowWrites field spec part := by
  have htypeSpec := Field.mem_specs_of_mem hspec
  rw [fragment?_eq_part? hfield] at h
  obtain ⟨written, hpart, heq⟩ := Option.map_eq_some_iff.1 h
  obtain ⟨rfl, rfl⟩ := Prod.mk.inj heq
  refine ⟨rfl, ?_⟩
  rw [part?_eq (Condition.field?_eq_some.1 hfield) (parent_of_part? hpart), hoperator,
    FieldType.operator?_label htypeSpec, Option.map_some, Option.bind_some, choicePart?] at hpart
  -- a row on a relation writes what is inside it, any other one its operand
  by_cases htype : field.isRelation = true
  · obtain ⟨relation, hrelation⟩ := Option.ne_none_iff_exists'.1 (hrelated htype)
    have hkind := kind?_eq_some hrelation
    rw [fragmentWith?] at hpart
    rcases content?_relation htype hrelation row.value with ⟨inner, hcontent⟩ | ⟨hcontent, -⟩
    · rw [hcontent] at hpart
      change relationFragment? field spec.operator (compileRows inner) = some written at hpart
      cases hk : relation.kind with
      | toMany =>
        rw [hk] at hkind
        rw [relationFragment?_toMany hkind] at hpart
        have hne : spec.operator ≠ .between := by
          have hquantifier := (operator_of_toMany htype hkind hspec).2
          rintro heq
          rw [heq] at hquantifier
          exact absurd hquantifier (by decide)
        rw [← Option.some.inj hpart]
        exact .words (.related hne _)
      | toOne =>
        rw [hk] at hkind
        rw [relationFragment?, hkind] at hpart
        simp only [Option.ite_none_left_eq_some, Option.some.injEq] at hpart
        rw [← hpart.2]
        exact .inside htype hkind (distinct_compileRows inner)
    · rw [hcontent] at hpart
      exact .words (.scalar htypeSpec hpart)
  · rw [fragmentWith?_scalar (Bool.eq_false_iff.2 htype)] at hpart
    exact .words (.scalar htypeSpec hpart)

namespace Permitted

variable {fields : List (Field σ)} {rows : List (Condition σ)}

/-- Where a permitted row writes, and what. -/
theorem rowWrites (h : Permitted fields rows)
    (hrelated : ∀ field ∈ fields, field.isRelation = true → field.relation ≠ none)
    {row : Condition σ} (hrow : row ∈ rows) {path : String} {part : Object}
    (hwrites : fragment? row = some (path, part)) :
    ∃ field ∈ fields, row.field? = some field ∧ path = field.target ∧
      ∃ spec ∈ field.specs, row.operator = spec.label ∧ RowWrites field spec part := by
  obtain ⟨field, hmem, hfield, spec, hspec, hlabel⟩ := h.offered row hrow
  obtain ⟨htarget, hpart⟩ :=
    rowWrites_of_fragment? hfield (hrelated field hmem) hspec hlabel.symm hwrites
  exact ⟨field, hmem, hfield, htarget, spec, hspec, hlabel.symm, hpart⟩

/-- Permitted rows that write at one path are on one field, and agree there. -/
theorem agree (h : Permitted fields rows) (htargets : (fields.map Field.target).Nodup)
    (hrelated : ∀ field ∈ fields, field.isRelation = true → field.relation ≠ none)
    {a b : Condition σ} (ha : a ∈ rows) (hb : b ∈ rows) {path : String} {part other : Object}
    (hwrites : fragment? a = some (path, part)) (hwrites' : fragment? b = some (path, other))
    {entry entry' : String × Json} (hentry : entry ∈ part) (hentry' : entry' ∈ other)
    (hkey : entry.1 = entry'.1) : entry = entry' := by
  obtain ⟨field, hmem, hfield, htarget, spec, hspec, hlabel, hpart⟩ :=
    h.rowWrites hrelated ha hwrites
  obtain ⟨field', hmem', hfield', htarget', spec', hspec', hlabel', hother⟩ :=
    h.rowWrites hrelated hb hwrites'
  by_cases hid : a.id = b.id
  · -- the rows are the same, and so are their fragments
    obtain rfl := List.inj_on_of_nodup_map h.distinct ha hb hid
    obtain ⟨-, rfl⟩ := Prod.mk.inj (Option.some.inj (hwrites.symm.trans hwrites'))
    exact List.inj_on_of_nodup_map hpart.distinct hentry hentry' hkey
  · obtain rfl := List.inj_on_of_nodup_map htargets hmem hmem' (htarget.symm.trans htarget')
    have hapart := not_excludes_of_enabled ha hid hfield (h.enabled b hb field hfield')
      (Field.mem_specs_of_mem hspec) (Field.mem_specs_of_mem hspec') hlabel hlabel'
    exact hpart.agree hspec hspec' hapart hother hentry hentry' hkey

end Permitted

/-- Compilation without loss: in the filter of rows that an editor permits, on fields with different
targets whose relations lead somewhere, all that a row writes is found at the target of its
field. -/
theorem compile_lossless {fields : List (Field σ)} {rows : List (Condition σ)}
    (htargets : (fields.map Field.target).Nodup)
    (hrelated : ∀ field ∈ fields, field.isRelation = true → field.relation ≠ none)
    (h : Permitted fields rows) {row : Condition σ} (hrow : row ∈ rows) {field : Field σ}
    (hfield : row.field? = some field) {path : String} {part : Object}
    (hwrites : fragment? row = some (path, part)) :
    path = field.target ∧ ∃ filter operators, compile rows = some filter ∧
      Entries.get? filter path = some (.object operators) ∧
      ∀ entry ∈ part, Entries.get? operators entry.1 = some entry.2 := by
  obtain ⟨own, -, hown, htarget, -⟩ := h.rowWrites hrelated hrow hwrites
  obtain rfl := Option.some.inj (hfield.symm.trans hown)
  have hkey : path ∈ Entries.keys (compileRows rows) :=
    mem_keys_compileRows.2 ⟨row, hrow, part, hwrites⟩
  refine ⟨htarget, _, _, compile_of_ne_nil (List.ne_nil_of_mem hrow), get?_compileRows hkey,
    fun entry hentry => ?_⟩
  refine Entries.get?_foldl_extend ?_ ?_ (.inr ⟨part, ?_, Entries.mem_keys_of_mem hentry⟩)
  · intro other hother
    obtain ⟨writer, hwriter, hwrites'⟩ := mem_fragmentsAt.1 hother
    obtain ⟨_, _, _, _, _, _, _, hpart⟩ := h.rowWrites hrelated hwriter hwrites'
    exact hpart.distinct
  · intro other hother operand hget
    obtain ⟨writer, hwriter, hwrites'⟩ := mem_fragmentsAt.1 hother
    have heq := h.agree htargets hrelated hwriter hrow hwrites' hwrites
      (Entries.mem_of_get? hget) hentry rfl
    exact (Prod.mk.inj heq).2
  · exact mem_fragmentsAt.2 ⟨row, hrow, hwrites⟩

end Rows

/-! ### An example -/

/-- Staff from eighteen to sixty-five, but not thirty, whose name contains `an` and begins with
`A`. -/
def rangeRows : List (Condition Scope) :=
  [⟨some ⟨1⟩, .field (.scalar .text "name" "Nome"), "contém", .text "an", none⟩,
    ⟨some ⟨2⟩, .field (.scalar .number "age" "Idade"), "entre", .text "18,65", none⟩,
    ⟨some ⟨3⟩, .field (.scalar .number "age" "Idade"), "diferente de", .text "30", none⟩,
    ⟨some ⟨4⟩, .field (.scalar .text "name" "Nome"), "começa com", .text "A", none⟩]

/-- The rows with a range are permitted. -/
theorem permitted_rangeRows : Permitted (fields .staff) rangeRows where
  offered := by
    have hname : (.scalar .text "name" "Nome" : Field Scope) ∈ fields .staff := by
      simp [fields, fieldsOf, Scope.root]
    have hage : (.scalar .number "age" "Idade" : Field Scope) ∈ fields .staff := by
      simp [fields, fieldsOf, Scope.root]
    intro row hrow
    simp only [rangeRows, List.mem_cons, List.not_mem_nil, or_false] at hrow
    rcases hrow with rfl | rfl | rfl | rfl
    · exact ⟨_, hname, rfl, ⟨"contém", .contains, "⊃"⟩, by decide, rfl⟩
    · exact ⟨_, hage, rfl, ⟨betweenLabel, .between, "↔"⟩, by decide, rfl⟩
    · exact ⟨_, hage, rfl, ⟨"diferente de", .differs, "≠"⟩, by decide, rfl⟩
    · exact ⟨_, hname, rfl, ⟨"começa com", .startsWith, "^"⟩, by decide, rfl⟩
  distinct := by decide
  enabled := by
    intro row hrow field hsome
    simp only [rangeRows, List.mem_cons, List.not_mem_nil, or_false] at hrow
    rcases hrow with rfl | rfl | rfl | rfl <;> obtain rfl := Option.some.inj hsome <;> decide

/-- Both bounds of the age are in the filter, although two more rows write operators on it and on
the name. -/
theorem rangeRows_lossless : Permitted (fields .staff) rangeRows ∧
    ∃ filter operators, compile rangeRows = some filter ∧
      Entries.get? filter "age" = some (.object operators) ∧
      Entries.get? operators "gte" = some (.number (.integer 18)) ∧
      Entries.get? operators "lte" = some (.number (.integer 65)) := by
  have hmem : ⟨some ⟨2⟩, .field (.scalar .number "age" "Idade"), "entre", .text "18,65", none⟩ ∈
      rangeRows := List.mem_cons_of_mem _ List.mem_cons_self
  have hwrites : fragment? (⟨some ⟨2⟩, .field (.scalar .number "age" "Idade"), "entre",
      .text "18,65", none⟩ : Condition Scope) =
        some ("age", [("gte", .number (.integer 18)), ("lte", .number (.integer 65))]) := by
    unfold fragment? fragmentWith?
    rfl
  have hrelated : ∀ field ∈ fields .staff, field.isRelation = true → field.relation ≠ none := by
    intro field hfield htype
    rw [isRelation_eq (Scope.proper_root .staff) hfield] at htype
    exact Option.isSome_iff_ne_none.1 htype
  obtain ⟨-, filter, operators, hcompile, hget, hparts⟩ :=
    compile_lossless (targets_fieldsOf (Scope.proper_root .staff)).1 hrelated permitted_rangeRows
      hmem rfl hwrites
  exact ⟨permitted_rangeRows, filter, operators, hcompile, hget, hparts _ List.mem_cons_self,
    hparts _ (List.mem_cons_of_mem _ List.mem_cons_self)⟩

end QueryFilter
