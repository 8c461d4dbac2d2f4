import QueryFilter.Proofs.Filter.Rows
import QueryFilter.Proofs.Filter.Scalar
import QueryFilter.Proofs.Query.Bracket

/-!
# Rows come back from a query string

Rows with one row per field are written as a query string and restored from it row by row, although
all types are lost on the way: with the same fields, operators and values, and a relation row with
the filter of its own rows, from which these come back in the same way (`Returns`).

The induction is on the levels of relations.  For each row of a level a `Piece` says what it writes,
what of this survives, and which row is restored; the filter of the level, what survives of it and
the restored rows are lists of these pieces (`levelReturns`).
-/

namespace QueryFilter

open Catalog Compile Restore Query

/-! ### Rows that come back -/

/-- Rows and the rows restored in their place: on the same fields and with the same operators, the
values either the same, or the filter of the rows inside as the query string keeps it, from which
these rows come back. -/
inductive Returns : List (Condition Scope) → List (Condition Scope) → Prop
  | nil : Returns [] []
  | scalar {row back : Condition Scope} {rows backs : List (Condition Scope)}
      (hsubject : back.subject = row.subject) (hoperator : back.operator = row.operator)
      (hvalue : back.value = row.value) (hparent : back.parent = none)
      (hrest : Returns rows backs) : Returns (row :: rows) (back :: backs)
  | related {row back : Condition Scope} {rows backs inner : List (Condition Scope)}
      {relation : Relation Scope}
      (hsubject : back.subject = row.subject) (hoperator : back.operator = row.operator)
      (hleads : row.Leads relation inner)
      (hvalue : back.value = .filter (reread (compileRows inner))) (hparent : back.parent = none)
      (hinner : Returns inner
        (topLevel (restore (fieldsOf relation.scope) (reread (compileRows inner)))))
      (hrest : Returns rows backs) : Returns (row :: rows) (back :: backs)

/-- What holds of the rows of one level: their filter is well-formed and keeps its keys in a query
string, and from there both the rows and the filter come back. -/
structure LevelReturns (scope : Scope) (rows : List (Condition Scope)) : Prop where
  wellKeyed : EntriesWellKeyed (compileRows rows)
  targets : ∀ key ∈ Entries.keys (compileRows rows), ∃ field ∈ fieldsOf scope, field.target = key
  keys_eq : Entries.keys (survivingEntries .standard (compileRows rows)) =
    Entries.keys (compileRows rows)
  ne_nil : rows ≠ [] → compileRows rows ≠ []
  returns : Returns rows (topLevel (restore (fieldsOf scope) (reread (compileRows rows))))
  compile_eq : compileRows (restore (fieldsOf scope) (reread (compileRows rows))) = compileRows rows

/-! ### One row -/

/-- A row, what it writes, what survives of this, and the row that is restored from it. -/
structure Piece where
  row : Condition Scope
  field : Field Scope
  fragment : Object
  left : Object
  back : Condition Scope

/-- The parts of a piece belong together. -/
structure Piece.Fits (scope : Scope) (piece : Piece) : Prop where
  mem : piece.field ∈ fieldsOf scope
  subject_eq : piece.row.subject = .field piece.field
  wellKeyed : EntriesWellKeyed piece.fragment
  writes : fragment? piece.row = some (piece.field.target, piece.fragment)
  survives : survivor .standard (.object piece.fragment) = some (.object piece.left)
  restores : headRows piece.field none (.object piece.left) = [piece.back]
  writes_back : fragment? piece.back = some (piece.field.target, piece.fragment)
  returns : ∀ {rows backs : List (Condition Scope)}, Returns rows backs →
    Returns (piece.row :: rows) (piece.back :: backs)

/-- A canonical row on a scalar field comes back as it is. -/
theorem exists_piece_scalar {scope : Scope} (hproper : scope.Proper) (id : Option RowId)
    {field : Field Scope} {spec : OperatorSpec} {value : Value Scope}
    (hfield : field ∈ fieldsOf scope) (hrelation : field.relation = none)
    (hspec : spec ∈ field.specs) (hvalue : CanonicalValue field.type spec.operator value) :
    ∃ piece : Piece, piece.row = ⟨id, .field field, spec.label, value, none⟩ ∧
      piece.Fits scope := by
  have hscalar := isRelation_of_none hproper hfield hrelation
  have hmem := Field.mem_specs_of_mem hspec
  have hwrites : ∀ rowId fragment, scalarFragment? field.type spec.operator value = some fragment →
      fragment? (⟨rowId, .field field, spec.label, value, none⟩ : Condition Scope) =
        some (field.target, fragment) := by
    intro rowId fragment hfragment
    rw [fragment?_offered rowId hspec, fragmentWith?_scalar hscalar, hfragment, Option.map_some]
  have hreturns : ∀ {rows backs : List (Condition Scope)}, Returns rows backs →
      Returns (⟨id, .field field, spec.label, value, none⟩ :: rows)
        (rowOf field none spec.label value :: backs) := fun hrest =>
    .scalar rfl rfl rfl rfl hrest
  by_cases hoperator : spec.operator = .between
  · -- a range is written as two bounds, and restored as one row
    obtain ⟨lower, upper, rfl, hlower, hupper⟩ := hvalue.exists_range hmem hoperator
    have hlabel : spec.label = betweenLabel := by
      have hlabels := FieldType.label?_operator hmem
      rw [hoperator, label?_between hlower.type_eq] at hlabels
      exact (Option.some.inj hlabels).symm
    have hfragment := scalarFragment?_range (σ := Scope) hlower hupper
    rw [← hoperator] at hfragment
    refine ⟨⟨_, field, boundsFragment (boundJson field.type lower) (boundJson field.type upper),
      boundsFragment (.string (boundJson field.type lower).plainText)
        (.string (boundJson field.type upper).plainText),
      rowOf field none spec.label (.text (lower ++ "," ++ upper))⟩, rfl, ?_⟩
    refine ⟨hfield, rfl, wellKeyed_bounds _ _ _, hwrites _ _ hfragment, ?_, ?_,
      hwrites _ _ hfragment, hreturns⟩
    · rw [survivor_object, survivingEntries_bounds]
      rw [survivingEntries_bounds]
      exact List.cons_ne_nil _ _
    · have hrows : scalarRows field.type
          (.object (boundsFragment (.string (boundJson field.type lower).plainText)
            (.string (boundJson field.type upper).plainText))) = [(betweenLabel, _)] :=
        scalarRows_bounds (σ := Scope) hlower.type_eq rfl rfl
      have hlowerEnd : endpoint field.type (.string (boundJson field.type lower).plainText) =
          lower := (endpoint_congr (Json.plainText_string _)).trans (endpoint_boundJson hlower)
      have hupperEnd : endpoint field.type (.string (boundJson field.type upper).plainText) =
          upper := (endpoint_congr (Json.plainText_string _)).trans (endpoint_boundJson hupper)
      rw [headRows_scalar hscalar, hrows, hlowerEnd, hupperEnd, hlabel, List.map_singleton]
  · have hoffered : spec.operator ∈ field.type.specs.map OperatorSpec.operator :=
      List.mem_map_of_mem hmem
    obtain ⟨-, left, hleft, hback⟩ := valueOf_operandOf hoffered hvalue hoperator .standard
    have hfragment := scalarFragment?_of_ne hvalue hoperator
    refine ⟨⟨_, field, single spec.operator (operandOf field.type value) ++ modeEntries field.type,
      [(spec.operator.word, left)], rowOf field none spec.label value⟩, rfl, ?_⟩
    refine ⟨hfield, rfl, wellKeyed_plain _ (wellKeyed_operandOf hvalue hoperator) _,
      hwrites _ _ hfragment, ?_, ?_, hwrites _ _ hfragment, hreturns⟩
    · rw [survivor_object, survivingEntries_plain _ hleft]
      rw [survivingEntries_plain _ hleft]
      exact List.cons_ne_nil _ _
    · rw [headRows_scalar hscalar, scalarRows_single hmem, hback, List.map_singleton]

/-- The filter of a level whose rows come back has no operator between a relation and its items
among its keys. -/
theorem LevelReturns.get?_word {scope : Scope} {rows : List (Condition Scope)}
    (h : LevelReturns scope rows) (hproper : scope.Proper) {operator : Operator}
    (hoperator : operator.isRelation = true) :
    Entries.get? (survivingEntries .standard (compileRows rows)) operator.word = none := by
  rw [Entries.get?_eq_none, h.keys_eq]
  intro hkey
  obtain ⟨field, hfield, htarget⟩ := h.targets _ hkey
  exact target_ne_word hproper hfield hoperator htarget

/-- A relation row comes back with the filter of its rows. -/
theorem exists_piece_related {root : Resource} {scope : Scope} (hreach : Reaches root scope)
    (id : Option RowId) {field : Field Scope} {relation : Relation Scope} {spec : OperatorSpec}
    {inner : List (Condition Scope)} (hfield : field ∈ fieldsOf scope)
    (hrelation : field.relation = some relation) (hspec : spec ∈ field.specs)
    (hinner : relation.kind = .toOne → inner ≠ []) (hlevel : LevelReturns relation.scope inner) :
    ∃ piece : Piece, piece.row = ⟨id, .field field, spec.label, .conditions inner, none⟩ ∧
      piece.Fits scope := by
  have hbelow : relation.scope.Proper := (hreach.step hfield hrelation).proper
  have htype := isRelation_of_relation hreach.proper hfield hrelation
  have hkind := kind?_eq_some hrelation
  have hreread := reread_eq hlevel.wellKeyed
  have hwrites : ∀ fragment,
      relationFragment? field spec.operator (compileRows inner) = some fragment →
      fragment? (⟨id, .field field, spec.label, .conditions inner, none⟩ : Condition Scope) =
        some (field.target, fragment) := by
    intro fragment hfragment
    rw [fragment?_offered id hspec, fragmentWith?_conditions htype, hfragment, Option.map_some]
  -- the restored row writes the same, because its filter is compiled to what it is read from
  have hback : ∀ fragment,
      relationFragment? field spec.operator (compileRows inner) = some fragment →
      fragment? (rowOf field none spec.label (.filter (reread (compileRows inner)))) =
        some (field.target, fragment) := by
    intro fragment hfragment
    have hcompile : compileRows (restore (Schema.fields relation.scope)
        (reread (compileRows inner))) = compileRows inner := hlevel.compile_eq
    rw [rowOf, fragment?_offered none hspec, fragmentWith?_filter htype hrelation, hcompile,
      hfragment, Option.map_some]
  have hreturns : ∀ {rows backs : List (Condition Scope)}, Returns rows backs →
      Returns (⟨id, .field field, spec.label, .conditions inner, none⟩ :: rows)
        (rowOf field none spec.label (.filter (reread (compileRows inner))) :: backs) :=
    fun hrest => .related rfl rfl ⟨field, rfl, hrelation, rfl⟩ rfl rfl hlevel.returns hrest
  cases hk : relation.kind with
  | toOne =>
    rw [hk] at hkind
    have hne := hlevel.ne_nil (hinner hk)
    have hfragment := relationFragment?_toOne hkind spec.operator hne
    refine ⟨⟨_, field, compileRows inner, reread (compileRows inner), _⟩, rfl, hfield, rfl,
      hlevel.wellKeyed, hwrites _ hfragment, ?_, ?_, hback _ hfragment, hreturns⟩
    · rw [survivor_object_of_keys hlevel.keys_eq, hreread]
    · rw [hreread]
      exact headRows_toOne htype hkind hspec fun operator => hlevel.get?_word hbelow
  | toMany =>
    rw [hk] at hkind
    have hfragment := relationFragment?_toMany hkind spec.operator (compileRows inner)
    have hleft : survivor .standard (.object (compileRows inner)) =
        some (.object (reread (compileRows inner))) := by
      rw [survivor_object_of_keys hlevel.keys_eq, hreread]
    have hsurvives := survivingEntries_plain spec.operator hleft .relation
    have hinnerKeyed : (Json.object (compileRows inner)).WellKeyed := hlevel.wellKeyed
    have hwellKeyed := wellKeyed_plain spec.operator hinnerKeyed .relation
    rw [show modeEntries .relation = [] from rfl, List.append_nil] at hsurvives hwellKeyed
    refine ⟨⟨_, field, single spec.operator (.object (compileRows inner)),
      single spec.operator (.object (reread (compileRows inner))), _⟩, rfl, hfield, rfl,
      hwellKeyed, hwrites _ hfragment, ?_, headRows_toMany htype hkind hspec _, hback _ hfragment,
      hreturns⟩
    rw [survivor_object, hsurvives]
    · rfl
    · rw [hsurvives]
      exact List.cons_ne_nil _ _

/-! ### One level -/

variable {scope : Scope} {pieces : List Piece}

/-- The entry of a piece in the filter of its level. -/
def Piece.entry (piece : Piece) : String × Json :=
  (piece.field.target, .object piece.fragment)

/-- The entry of a piece in what survives of the filter of its level. -/
def Piece.leftEntry (piece : Piece) : String × Json :=
  (piece.field.target, .object piece.left)

/-- Pieces on different fields have different targets. -/
theorem distinct_pieces (hproper : scope.Proper) (hfits : ∀ piece ∈ pieces, piece.Fits scope)
    (hone : OnePerField (pieces.map Piece.row)) :
    Entries.Distinct (pieces.map fun piece => (piece.field.target, piece.fragment)) := by
  rw [Entries.Distinct, Entries.keys, List.map_map]
  have hpairs : pieces.Pairwise fun a b => a.row.field? ≠ b.row.field? :=
    (List.pairwise_map (f := Piece.row)).1 hone
  refine List.pairwise_map.2 (hpairs.imp_of_mem fun {a b} ha hb hne heq => hne ?_)
  have hfield := eq_of_target hproper (hfits a ha).mem (hfits b hb).mem heq
  rw [Condition.field?, Condition.field?, (hfits a ha).subject_eq, (hfits b hb).subject_eq, hfield]

/-- The rows and the restored rows of pieces write the same fragments. -/
theorem filterMap_fragment?_pieces (hfits : ∀ piece ∈ pieces, piece.Fits scope) :
    (pieces.map Piece.row).filterMap fragment? =
        pieces.map (fun piece => (piece.field.target, piece.fragment)) ∧
      (pieces.map Piece.back).filterMap fragment? =
        pieces.map fun piece => (piece.field.target, piece.fragment) := by
  induction pieces with
  | nil => exact ⟨rfl, rfl⟩
  | cons piece pieces ih =>
    have hfit := hfits piece List.mem_cons_self
    obtain ⟨hrows, hbacks⟩ := ih fun p hp => hfits p (List.mem_cons_of_mem _ hp)
    rw [List.map_cons, List.map_cons, List.map_cons, List.filterMap_cons_some hfit.writes,
      List.filterMap_cons_some hfit.writes_back, hrows, hbacks]
    exact ⟨rfl, rfl⟩

/-- The filter of a level lists the entries of its pieces. -/
theorem compileRows_pieces (hproper : scope.Proper) (hfits : ∀ piece ∈ pieces, piece.Fits scope)
    (hone : OnePerField (pieces.map Piece.row)) :
    compileRows (pieces.map Piece.row) = pieces.map Piece.entry ∧
      compileRows (pieces.map Piece.back) = pieces.map Piece.entry := by
  obtain ⟨hrows, hbacks⟩ := filterMap_fragment?_pieces hfits
  have hdistinct := distinct_pieces hproper hfits hone
  have hown : ∀ fragment ∈ pieces.map fun piece => (piece.field.target, piece.fragment),
      Entries.Distinct fragment.2 := by
    intro fragment hmem
    obtain ⟨piece, hpiece, rfl⟩ := List.mem_map.1 hmem
    exact (hfits piece hpiece).wellKeyed.distinct
  have hentries : toFilter (pieces.map fun piece => (piece.field.target, piece.fragment)) =
      pieces.map Piece.entry := by
    rw [toFilter, List.map_map]
    rfl
  constructor
  · rw [compileRows_of_distinct (hrows ▸ hdistinct) (hrows ▸ hown), hrows, hentries]
  · rw [compileRows_of_distinct (hbacks ▸ hdistinct) (hbacks ▸ hown), hbacks, hentries]

/-- Of the entries of pieces survive those that are left of each. -/
theorem survivingEntries_pieces (hfits : ∀ piece ∈ pieces, piece.Fits scope) :
    survivingEntries .standard (pieces.map Piece.entry) = pieces.map Piece.leftEntry := by
  induction pieces with
  | nil => rfl
  | cons piece pieces ih =>
    have hfit := hfits piece List.mem_cons_self
    rw [List.map_cons, Piece.entry, survivingEntries_cons_kept (omits_object _ _ _) hfit.survives,
      ih fun p hp => hfits p (List.mem_cons_of_mem _ hp), List.map_cons, Piece.leftEntry]

/-- From what survives of the filter of a level the restored rows of its pieces come back. -/
theorem flatMap_keyRows_pieces (hproper : scope.Proper)
    (hfits : ∀ piece ∈ pieces, piece.Fits scope) :
    (pieces.map Piece.leftEntry).flatMap (keyRows (fieldsOf scope)) = pieces.map Piece.back := by
  induction pieces with
  | nil => rfl
  | cons piece pieces ih =>
    have hfit := hfits piece List.mem_cons_self
    rw [List.map_cons, List.flatMap_cons, Piece.leftEntry, keyRows_target hproper hfit.mem,
      hfit.restores, ih fun p hp => hfits p (List.mem_cons_of_mem _ hp), List.map_cons,
      List.singleton_append]

/-- The restored rows of pieces are the rows again. -/
theorem returns_pieces (hfits : ∀ piece ∈ pieces, piece.Fits scope) :
    Returns (pieces.map Piece.row) (pieces.map Piece.back) := by
  induction pieces with
  | nil => exact .nil
  | cons piece pieces ih =>
    exact (hfits piece List.mem_cons_self).returns
      (ih fun p hp => hfits p (List.mem_cons_of_mem _ hp))

/-- Rows that have pieces, no two of them on one field, come back. -/
theorem levelReturns_pieces {root : Resource} (hreach : Reaches root scope)
    (hfits : ∀ piece ∈ pieces, piece.Fits scope) (hone : OnePerField (pieces.map Piece.row)) :
    LevelReturns scope (pieces.map Piece.row) := by
  have hproper := hreach.proper
  obtain ⟨hcompile, hcompileBack⟩ := compileRows_pieces hproper hfits hone
  have hleft := survivingEntries_pieces hfits
  have hkeys : Entries.keys (pieces.map Piece.entry) = pieces.map fun p => p.field.target := by
    rw [Entries.keys, List.map_map]
    rfl
  have hwellKeyed : EntriesWellKeyed (pieces.map Piece.entry) := by
    rw [entriesWellKeyed_iff]
    constructor
    · have hdistinct := distinct_compileRows (pieces.map Piece.row)
      rwa [hcompile] at hdistinct
    · intro entry hentry
      obtain ⟨piece, hpiece, rfl⟩ := List.mem_map.1 hentry
      exact ⟨(targets_fieldsOf hproper).2 _ (hfits piece hpiece).mem,
        (hfits piece hpiece).wellKeyed⟩
  have hreread : reread (pieces.map Piece.entry) = pieces.map Piece.leftEntry := by
    rw [reread_eq hwellKeyed, hleft]
  -- the rows without a parent come from the keys that are left, one after the other
  have htop : topLevel (restore (fieldsOf scope) (pieces.map Piece.leftEntry)) =
      pieces.map Piece.back := by
    rw [topLevel_restore (universe_known root) hreach.known, flatMap_keyRows_pieces hproper hfits]
  constructor
  · rw [hcompile]
    exact hwellKeyed
  · intro key hkey
    rw [hcompile, hkeys] at hkey
    obtain ⟨piece, hpiece, rfl⟩ := List.mem_map.1 hkey
    exact ⟨piece.field, (hfits piece hpiece).mem, rfl⟩
  · rw [hcompile, hleft, hkeys, Entries.keys, List.map_map]
    rfl
  · intro hne hnil
    rw [hcompile, List.map_eq_nil_iff] at hnil
    rw [hnil] at hne
    exact hne rfl
  · rw [hcompile, hreread, htop]
    exact returns_pieces hfits
  · rw [hcompile, hreread, ← compileRows_topLevel, htop, hcompileBack]

/-- The rows of every level come back. -/
theorem levelReturns {root : Resource} {rows : List (Condition Scope)} (hreach : Reaches root scope)
    (h : Edited OnePerField scope rows) : LevelReturns scope rows := by
  induction h with
  | @level scope rows hrule hrows hbelow ih =>
    have hpieces : ∀ row ∈ rows, ∃ piece : Piece, piece.row = row ∧ piece.Fits scope := by
      intro row hrow
      cases hrows row hrow with
      | scalar id hfield hrelation hspec hvalue =>
        exact exists_piece_scalar hreach.proper id hfield hrelation hspec hvalue
      | @related id field relation spec inner hfield hrelation hspec hinner =>
        have hlevel := ih _ hrow relation inner ⟨field, rfl, hrelation, rfl⟩
          (hreach.step hfield hrelation)
        exact exists_piece_related hreach id hfield hrelation hspec hinner hlevel
    obtain ⟨pieces, rfl, hfits⟩ := exists_map_eq hpieces
    exact levelReturns_pieces hreach hfits hrule

/-! ### An example -/

/-- Staff above eighteen who work for a company with `acme` in its name. -/
def sampleRows : List (Condition Scope) :=
  [⟨none, .field (.scalar .number "age" "Idade"), "maior que", .text "18", none⟩,
    ⟨none, .field (.related .toOne "company" "Empresa" ⟨.companies, "company__"⟩), "possui",
      .conditions [⟨none, .field (.scalar .text "company__name" "Nome"), "contém", .text "acme",
        none⟩], none⟩]

/-- The sample rows are rows of an editor, with one row per field. -/
theorem edited_sampleRows : Edited OnePerField (.root .staff) sampleRows := by
  have hname : Edited OnePerField ⟨.companies, "company__"⟩
      [⟨none, .field (.scalar .text "company__name" "Nome"), "contém", .text "acme", none⟩] := by
    refine .level (List.pairwise_singleton _ _) (fun row hrow => ?_) fun row hrow => ?_
    · rw [List.mem_singleton.1 hrow]
      have hspec : (⟨"contém", .contains, "⊃"⟩ : OperatorSpec) ∈ FieldType.text.specs := by decide
      have hfield : (.scalar .text "company__name" "Nome" : Field Scope) ∈
          fieldsOf ⟨.companies, "company__"⟩ := by simp [fieldsOf]
      exact .scalar none hfield rfl hspec (CanonicalValue.text "acme")
    · rw [List.mem_singleton.1 hrow]
      rintro relation inner ⟨field, -, -, hvalue⟩
      exact absurd hvalue (by simp)
  have hnumber : Operand.IsCanonicalNumber "18" := by
    have hread : Operand.number? "18" = some (.integer 18) := by decide
    intro n hn
    rw [hread] at hn
    rw [← Option.some.inj hn]
    decide
  refine .level ?_ (fun row hrow => ?_) fun row hrow relation inner hleads => ?_
  · exact List.pairwise_pair.2 (by simp [Condition.field?, Subject.field?, Field.scalar,
      Field.related])
  · simp only [sampleRows, List.mem_cons, List.not_mem_nil, or_false] at hrow
    rcases hrow with rfl | rfl
    · have hspec : (⟨"maior que", .gt, ">"⟩ : OperatorSpec) ∈ FieldType.number.specs := by decide
      have hfield : (.scalar .number "age" "Idade" : Field Scope) ∈ fieldsOf (.root .staff) := by
        simp [fieldsOf, Scope.root]
      have hvalue : CanonicalValue .number .gt (.text "18" : Value Scope) :=
        .number (by decide) hnumber
      exact .scalar none hfield rfl hspec hvalue
    · have hspec : (⟨"possui", .related, "→"⟩ : OperatorSpec) ∈
          (Field.related .toOne "company" "Empresa" ⟨.companies, "company__"⟩ :
            Field Scope).specs := by decide
      have hfield : (.related .toOne "company" "Empresa" ⟨.companies, "company__"⟩ : Field Scope) ∈
          fieldsOf (.root .staff) := by simp [fieldsOf, Scope.root, Scope.below]
      exact .related none hfield rfl hspec (by simp)
  · simp only [sampleRows, List.mem_cons, List.not_mem_nil, or_false] at hrow
    obtain ⟨field, hfield, hrelation, hvalue⟩ := hleads
    rcases hrow with rfl | rfl
    · exact absurd hvalue (by simp)
    · obtain rfl := Subject.field.inj hfield
      obtain rfl := Option.some.inj hrelation
      obtain rfl := Value.conditions.inj hvalue
      exact hname

/-! ### All levels -/

/-- Exact restore through the query string: rows of an editor, with one row per field at every
level, have a filter whose query string can be read; the restored rows without a parent are these
rows, and they have the same filter. -/
theorem rows_return_from_query (resource : Resource) {rows : List (Condition Scope)}
    (hne : rows ≠ []) (h : Edited OnePerField (.root resource) rows) :
    ∃ filter kept, compile rows = some filter ∧
      deserialize (serialize .standard "" (.object filter)) = some kept ∧
      Returns rows (topLevel (restore (fields resource) kept)) ∧
      compile (restore (fields resource) kept) = some filter := by
  have hlevel := levelReturns (.start : Reaches resource _) h
  have hfilter := hlevel.ne_nil hne
  have hleft : survivingEntries .standard (compileRows rows) ≠ [] := by
    intro hnil
    have hkeys := hlevel.keys_eq
    rw [hnil] at hkeys
    exact hfilter (List.map_eq_nil_iff.1 hkeys.symm)
  have hread := deserialize_serialize hlevel.wellKeyed hleft
  have hreread := reread_eq hlevel.wellKeyed
  have hback : compileRows (restore (fields resource)
      (survivingEntries .standard (compileRows rows))) = compileRows rows :=
    hreread ▸ hlevel.compile_eq
  refine ⟨_, _, compile_of_ne_nil hne, hread, hreread ▸ hlevel.returns, ?_⟩
  rw [compile_of_ne_nil, hback]
  intro hnil
  rw [hnil, compileRows_nil] at hback
  exact hfilter hback.symm

/-- The sample rows return from their query string. -/
theorem sampleRows_return :
    ∃ filter kept, compile sampleRows = some filter ∧
      deserialize (serialize .standard "" (.object filter)) = some kept ∧
      Returns sampleRows (topLevel (restore (fields .staff) kept)) ∧
      compile (restore (fields .staff) kept) = some filter :=
  rows_return_from_query .staff (List.cons_ne_nil _ _) edited_sampleRows

end QueryFilter
