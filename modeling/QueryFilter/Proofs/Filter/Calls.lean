import QueryFilter.Proofs.Filter.Termination
import QueryFilter.Proofs.Filter.Words

/-!
# Nested calls

The recursions over filters, with a bound on the number of nested calls, for any reader of filters:
`compileBy` has no filter and `sentenceBy` no words for rows on which they would need more calls.

With a reader that shrinks, rows that weigh less than the bound do not run into it
(`compileBy_isSome`, `exists_sentenceBy`).  For the reader `restore`, what comes out is what is
compiled and said (`eq_compileRows_of_compileBy`, `sentenceBy_restore`).  The number of calls that
compiling needs is that of the relations inside one another (`compileBy_isSome_iff`).
-/

namespace QueryFilter

open Compile Restore Describe

variable {σ : Type}

/-! ### Compiling with a bound on nested calls -/

namespace Compile

variable [Schema σ]

/-- What a row that counts writes, if the rows inside it can be compiled. -/
def choiceBy (read : FilterReader σ) (compile : List (Condition σ) → Option Object)
    (value : Value σ) (choice : Field σ × Operator) : Option (Option (String × Object)) :=
  let written := fun fragment : Option Object =>
    fragment.map fun operators => (choice.1.target, operators)
  match contentBy read choice.1 value with
  | some (.rows inner) =>
    (compile inner).map fun filter => written (relationFragment? choice.1 choice.2 filter)
  | some (.filter filter) => some (written (relationFragment? choice.1 choice.2 filter))
  | none => some (written (scalarFragment? choice.1.type choice.2 value))

/-- What a row writes, if the rows inside it can be compiled. -/
def fragmentBy (read : FilterReader σ) (compile : List (Condition σ) → Option Object)
    (row : Condition σ) : Option (Option (String × Object)) :=
  match counted? row with
  | none => some none
  | some choice => choiceBy read compile row.value choice

/-- The filter of rows, if so many nested calls are enough. -/
def compileBy (read : FilterReader σ) : Nat → List (Condition σ) → Option Object
  | 0, _ => none
  | calls + 1, rows =>
    (rows.mapM (fragmentBy read (compileBy read calls))).map fun fragments =>
      toFilter (merge (fragments.filterMap id))

end Compile

/-- Rows stand inside a row that counts. -/
def Condition.Encloses [Schema σ] (read : FilterReader σ) (row : Condition σ)
    (inner : List (Condition σ)) : Prop :=
  ∃ field operator, counted? row = some (field, operator) ∧
    contentBy read field row.value = some (.rows inner)

/-- Rows are nested so many times at most. -/
def NestedWithin [Schema σ] (read : FilterReader σ) : Nat → List (Condition σ) → Prop
  | 0, rows => ∀ row ∈ rows, ∀ inner, ¬ row.Encloses read inner
  | n + 1, rows => ∀ row ∈ rows, ∀ inner, row.Encloses read inner → NestedWithin read n inner

/-- Computations in turn succeed exactly if each of them does. -/
theorem mapM_isSome_iff {α β : Type} {f : α → Option β} {xs : List α} :
    (xs.mapM f).isSome ↔ ∀ x ∈ xs, (f x).isSome := by
  induction xs with
  | nil => simp
  | cons x xs ih =>
    rw [List.mapM_cons, List.forall_mem_cons, ← ih]
    cases f x with
    | none => simp
    | some y => cases xs.mapM f <;> simp

/-- If each computation that succeeds has a known value, those in turn have the list of these. -/
theorem mapM_eq_some {α β : Type} {f : α → Option β} {xs : List α} {ys : List β}
    (h : xs.mapM f = some ys) {g : α → β} (hg : ∀ x ∈ xs, ∀ y, f x = some y → y = g x) :
    ys = xs.map g := by
  induction xs generalizing ys with
  | nil => exact (Option.some.inj h).symm
  | cons x xs ih =>
    rw [List.mapM_cons] at h
    simp only [bind, Option.bind_eq_some_iff, pure, Option.some.injEq] at h
    obtain ⟨y, hy, rest, hrest, rfl⟩ := h
    rw [List.map_cons, hg x List.mem_cons_self y hy,
      ih hrest fun other hother => hg other (List.mem_cons_of_mem _ hother)]

section Calls

variable [Schema σ] {read : FilterReader σ}

/-- A row writes something, if only nothing, when the rows inside it can be compiled. -/
theorem fragmentBy_isSome_iff {compile : List (Condition σ) → Option Object}
    {row : Condition σ} : (fragmentBy read compile row).isSome ↔
      ∀ inner, row.Encloses read inner → (compile inner).isSome := by
  unfold fragmentBy Condition.Encloses
  cases hcounted : counted? row with
  | none => simp
  | some choice =>
    obtain ⟨field, operator⟩ := choice
    simp only [choiceBy]
    cases hcontent : contentBy read field row.value with
    | none => simp [hcontent]
    | some content =>
      cases content with
      | filter filter => simp [hcontent]
      | rows inner => simp [hcontent]

/-- So many nested calls are enough for rows that are nested fewer times. -/
theorem compileBy_isSome_iff {n : Nat} {rows : List (Condition σ)} :
    (compileBy read (n + 1) rows).isSome ↔ NestedWithin read n rows := by
  -- one call is for the rows themselves, the others are for what they enclose
  induction n generalizing rows with
  | zero =>
    rw [compileBy, Option.isSome_map, mapM_isSome_iff, NestedWithin]
    refine forall₂_congr fun row _ => ?_
    rw [fragmentBy_isSome_iff]
    simp [compileBy]
  | succ n ih =>
    rw [compileBy, Option.isSome_map, mapM_isSome_iff, NestedWithin]
    refine forall₂_congr fun row _ => ?_
    rw [fragmentBy_isSome_iff]
    exact forall₂_congr fun inner _ => ih

/-- Rows that a row encloses stand inside the rows that it is one of. -/
theorem Condition.Encloses.standInside {row : Condition σ} {rows inner : List (Condition σ)}
    (hrow : row ∈ rows) (h : row.Encloses read inner) : StandInside read inner rows := by
  obtain ⟨field, _, -, hcontent⟩ := h
  rcases cases_of_contentBy hcontent with hvalue | ⟨fields, filter, hvalue, rfl⟩
  · exact .held hrow hvalue
  · exact .kept hrow hvalue fields

/-- With a reader that shrinks, rows are not nested more times than they weigh. -/
theorem nestedWithin_of_le (h : read.Shrinks) {n : Nat} {rows : List (Condition σ)}
    (hle : rowsWeight rows ≤ n) : NestedWithin read n rows := by
  induction n generalizing rows with
  | zero =>
    intro row hrow inner hencloses
    have hlt := (hencloses.standInside hrow).rowsWeight_lt h
    omega
  | succ n ih =>
    intro row hrow inner hencloses
    have hlt := (hencloses.standInside hrow).rowsWeight_lt h
    exact ih (by omega)

/-- Rows that weigh less than the bound are compiled. -/
theorem compileBy_isSome (h : read.Shrinks) {calls : Nat} {rows : List (Condition σ)}
    (hcalls : rowsWeight rows < calls) : (compileBy read calls rows).isSome := by
  obtain ⟨n, rfl⟩ := Nat.exists_eq_add_of_lt hcalls
  exact compileBy_isSome_iff.2 (nestedWithin_of_le h (Nat.le_add_right _ n))

/-- With restored filters, a row writes what it is compiled to if the rows inside it do. -/
theorem fragmentBy_restore {compile : List (Condition σ) → Option Object}
    (hcompile : ∀ inner filter, compile inner = some filter → filter = compileRows inner)
    {row : Condition σ} {fragment : Option (String × Object)}
    (h : fragmentBy restore compile row = some fragment) : fragment = fragment? row := by
  unfold fragmentBy at h
  unfold fragment?
  cases hcounted : counted? row with
  | none =>
    rw [hcounted] at h
    exact (Option.some.inj h).symm
  | some choice =>
    obtain ⟨field, operator⟩ := choice
    simp only [hcounted, choiceBy] at h
    simp only [Option.bind_some, fragmentWith?, content?]
    cases hcontent : contentBy restore field row.value with
    | none =>
      rw [hcontent] at h
      exact (Option.some.inj h).symm
    | some content =>
      rw [hcontent] at h
      cases content with
      | filter filter => exact (Option.some.inj h).symm
      | rows inner =>
        obtain ⟨filter, hfilter, rfl⟩ := Option.map_eq_some_iff.1 h
        rw [hcompile inner filter hfilter]

/-- What comes out of nested calls is the filter of the rows. -/
theorem eq_compileRows_of_compileBy {calls : Nat} {rows : List (Condition σ)} {filter : Object}
    (h : compileBy restore calls rows = some filter) : filter = compileRows rows := by
  induction calls generalizing rows filter with
  | zero => exact absurd h (by simp [compileBy])
  | succ calls ih =>
    obtain ⟨fragments, hfragments, rfl⟩ := Option.map_eq_some_iff.1 h
    have hwritten := mapM_eq_some hfragments fun row _ fragment hrow =>
      fragmentBy_restore (fun _ _ => ih) hrow
    rw [compileRows_eq, hwritten, List.filterMap_map]
    rfl

end Calls

/-! ### Rows that enclose rows -/

section Encloses

variable [Schema σ] {read : FilterReader σ} {row : Condition σ} {field : Field σ}
  {inner : List (Condition σ)}

/-- A row on a scalar field encloses nothing. -/
theorem not_encloses_of_scalar (hfield : row.field? = some field)
    (htype : field.isRelation = false) : ¬ row.Encloses read inner := by
  rintro ⟨own, operator, hcounted, hcontent⟩
  obtain rfl := Option.some.inj (hfield.symm.trans (field?_of_counted? hcounted))
  unfold contentBy at hcontent
  rw [htype, if_neg Bool.false_ne_true] at hcontent
  exact absurd hcontent (by simp)

/-- A row from inside a relation encloses nothing. -/
theorem not_encloses_of_parent (h : row.parent ≠ none) : ¬ row.Encloses read inner := by
  rintro ⟨_, _, hcounted, -⟩
  exact h (parent_of_counted? hcounted)

/-- A row on a relation encloses the rows that its filter is read as. -/
theorem encloses_rowOf_iff {relation : Relation σ} (htype : field.isRelation = true)
    (hrelation : field.relation = some relation) {spec : OperatorSpec}
    (hspec : spec ∈ FieldType.relation.specs) {kept : Object} :
    (rowOf field none spec.label (.filter kept)).Encloses read inner ↔
      inner = read (Schema.fields relation.scope) kept := by
  have hcontent : contentBy read field (.filter kept) = _ := contentBy_filter htype hrelation kept
  constructor
  · rintro ⟨own, operator, hcounted, hown⟩
    obtain rfl : field = own := Option.some.inj (field?_of_counted? hcounted)
    exact (Content.rows.inj (Option.some.inj (hcontent.symm.trans hown))).symm
  · rintro rfl
    refine ⟨field, spec.operator, ?_, hcontent⟩
    have hdraft : (rowOf field none spec.label (.filter kept)).isDraft = false :=
      not_allBlank_label hspec
    rw [counted?, if_neg (by rw [hdraft]; exact Bool.false_ne_true)]
    change ((field.type.operator? spec.label).map fun operator => (field, operator)) = _
    rw [type_eq_relation htype, FieldType.operator?_label hspec, Option.map_some]

/-- Rows are nested as often as the rows without a parent among them. -/
theorem nestedWithin_iff_forall {n : Nat} {rows : List (Condition σ)} :
    NestedWithin read n rows ↔ ∀ row ∈ topLevel rows, NestedWithin read n [row] := by
  have hcounts : ∀ {P : List (Condition σ) → Prop},
      (∀ row ∈ rows, ∀ inner, row.Encloses read inner → P inner) ↔
        ∀ row ∈ topLevel rows, ∀ sub ∈ [row], ∀ inner, sub.Encloses read inner → P inner := by
    intro P
    constructor
    · intro h row hrow sub hsub
      rw [List.mem_singleton.1 hsub]
      exact h row (List.mem_filter.1 hrow).1
    · intro h row hrow inner hencloses
      obtain ⟨field, operator, hcounted, hcontent⟩ := hencloses
      have hparent := parent_of_counted? hcounted
      exact h row (List.mem_filter.2 ⟨hrow, Option.isNone_iff_eq_none.2 hparent⟩) row
        List.mem_cons_self inner ⟨field, operator, hcounted, hcontent⟩
  cases n with
  | zero => exact hcounts
  | succ n => exact hcounts

end Encloses

/-! ### Words with a bound on nested calls -/

/-- Computations in turn do not fail if none of them does. -/
theorem mapM_liftM {α β : Type} {f : α → OptionT (Lookup σ) β} {g : α → Lookup σ β} {xs : List α}
    (h : ∀ x ∈ xs, f x = liftM (g x)) : xs.mapM f = liftM (xs.mapM g) := by
  induction xs with
  | nil => rfl
  | cons x xs ih =>
    rw [List.mapM_cons, List.mapM_cons, h x List.mem_cons_self,
      ih fun y hy => h y (List.mem_cons_of_mem _ hy), liftM_bind]
    simp only [liftM_bind, liftM_pure]

variable [Schema σ]

/-- A row as a sentence, given how the rows inside it are put into words. -/
def wordsBy {m : Type → Type} [Monad m] [MonadLiftT (Lookup σ) m] (read : FilterReader σ)
    (say : Condition σ → m String) (row : Condition σ) : m String :=
  match row.value with
  | .filter filter =>
    match row.field? with
    | none => return render row row.operator []
    | some field =>
      if field.isRelation then do
        let fields ← liftM (Resolver.relationFields field)
        let sentences ← (topLevel (read fields filter)).mapM say
        return row.headline sentences
      else return row.plainSentence
  | .conditions rows =>
    if row.isDraft then return render row row.operator []
    else do
      let sentences ← rows.mapM say
      return render row row.operator sentences
  | _ => return render row row.operator []

/-- A row as a sentence, if so many nested calls are enough. -/
def sentenceBy (read : FilterReader σ) : Nat → Condition σ → OptionT (Lookup σ) String
  | 0, _ => failure
  | calls + 1, row => wordsBy read (sentenceBy read calls) row

/-- A row is put into words by the rows inside it. -/
theorem sentence_eq_wordsBy (row : Condition σ) :
    row.sentence = wordsBy restore Condition.sentence row := by
  rw [wordsBy]
  split
  · rename_i filter hvalue
    split
    · rename_i hfield
      rw [Condition.sentence]
      split
      · simp only [hfield]
      · rename_i hrows
        exact absurd (hvalue.symm.trans hrows) (by simp)
      · rfl
    · rename_i field hfield
      split
      · rename_i htype
        exact Condition.sentence_filter hfield htype hvalue
      · rename_i htype
        rw [Condition.sentence]
        split
        · simp only [hfield, if_neg htype]
        · rename_i hrows
          exact absurd (hvalue.symm.trans hrows) (by simp)
        · rename_i hnone _
          exact absurd hvalue (hnone filter)
  · rename_i rows hvalue
    exact Condition.sentence_conditions hvalue
  · rename_i hnone hother
    rw [Condition.sentence]
    split
    · rename_i filter hvalue
      exact absurd hvalue (hnone filter)
    · rename_i rows hvalue
      exact absurd hvalue (hother rows)
    · rfl

/-- If the rows inside a row are put into words without failure, so is the row. -/
theorem wordsBy_liftM {read : FilterReader σ} (h : read.Shrinks) {row : Condition σ}
    {say : Condition σ → OptionT (Lookup σ) String} {words : Condition σ → Lookup σ String}
    (hsay : ∀ sub : Condition σ, sub.weight < row.weight → say sub = liftM (words sub)) :
    wordsBy read say row = liftM (wordsBy read words row) := by
  rw [wordsBy, wordsBy]
  split
  · rename_i filter hvalue
    have hrows : ∀ fields, (topLevel (read fields filter)).mapM say =
        liftM ((topLevel (read fields filter)).mapM words) := by
      refine fun fields => mapM_liftM fun sub hsub => hsay sub ?_
      rw [row.weight_eq, hvalue]
      exact h fields filter sub (List.mem_filter.1 hsub).1
    split
    · rw [liftM_pure]
    · split
      · simp only [hrows, liftM_bind, liftM_pure]
        rfl
      · rw [liftM_pure]
  · rename_i rows hvalue
    have hrows : rows.mapM say = liftM (rows.mapM words) :=
      mapM_liftM fun sub hsub => hsay sub (Condition.weight_lt_of_content hvalue hsub)
    split
    · rw [liftM_pure]
    · simp only [hrows, liftM_bind, liftM_pure]
  · rw [liftM_pure]

/-- Rows that weigh less than the bound are put into words. -/
theorem exists_sentenceBy {read : FilterReader σ} (h : read.Shrinks) (calls : Nat) :
    ∃ words : Condition σ → Lookup σ String, ∀ row : Condition σ, row.weight < calls →
      sentenceBy read calls row = liftM (words row) := by
  induction calls with
  | zero => exact ⟨fun _ => pure "", fun row hrow => absurd hrow (Nat.not_lt_zero _)⟩
  | succ calls ih =>
    obtain ⟨words, hwords⟩ := ih
    exact ⟨wordsBy read words, fun row hrow => wordsBy_liftM h fun sub hsub =>
      hwords sub (Nat.lt_of_lt_of_le hsub (Nat.le_of_lt_succ hrow))⟩

/-- The words of a row that weighs less than the bound are those of the row. -/
theorem sentenceBy_restore {calls : Nat} {row : Condition σ} (hcalls : row.weight < calls) :
    sentenceBy restore calls row = liftM row.sentence := by
  induction calls generalizing row with
  | zero => exact absurd hcalls (Nat.not_lt_zero _)
  | succ calls ih =>
    rw [sentenceBy, sentence_eq_wordsBy]
    exact wordsBy_liftM (fun _ _ _ => weight_lt_of_mem_restore) fun sub hsub =>
      ih (Nat.lt_of_lt_of_le hsub (Nat.le_of_lt_succ hcalls))

/-! ### All recursions -/

/-- Recursions over filters end with a reader: what rows keep is smaller than what they are read
from, there is no way inside rows without end, and so many nested calls as rows weigh are enough to
compile them and to put them into words. -/
structure FilterReader.Ends (read : FilterReader σ) : Prop where
  smaller : ∀ fields filter, ∀ row ∈ read fields filter, ∀ kept, row.value = .filter kept →
    (Json.object kept).size < (Json.object filter).size
  wellFounded : WellFounded (StandInside read)
  compiles : ∀ rows calls, rowsWeight rows < calls → (compileBy read calls rows).isSome
  describes : ∀ calls, ∃ words : Condition σ → Lookup σ String, ∀ row : Condition σ,
    row.weight < calls → sentenceBy read calls row = liftM (words row)

/-- All recursions end with a reader that shrinks. -/
theorem FilterReader.Shrinks.ends {read : FilterReader σ} (h : read.Shrinks) : read.Ends where
  smaller fields filter row hrow kept hvalue := by
    have hlt := h fields filter row hrow
    rwa [row.weight_eq, hvalue] at hlt
  wellFounded := wellFounded_standInside h
  compiles _ _ := compileBy_isSome h
  describes := exists_sentenceBy h

end QueryFilter
