import QueryFilter.Proofs.Filter.Offered
import QueryFilter.Proofs.Filter.Words
import QueryFilter.Proofs.Filter.Written

/-!
# Drafts in words

A row whose operator is still to be chosen is shown by its label and an ellipsis, on its own and
inside the rows that hold it.  `ReadsIn` says where the words of a row stand in the text of another
one, and `Shows` which rows another one shows.

The one exception is a draft that keeps a filter on a relation: as a sentence it is put into words
by the filter, and then it never reads as a draft (`draft_reads_iff`).  No such draft is restored.
-/

namespace QueryFilter

open Catalog Describe Restore

variable {σ : Type}

namespace Condition

/-! ### Where words stand -/

/-- The words of a draft: its label, and an ellipsis for what is still to come. -/
def draftWords (row : Condition σ) : String :=
  row.label ++ " " ++ ellipsis

/-- The row keeps a filter, and its field is a relation. -/
def KeepsFilter (row : Condition σ) : Prop :=
  ∃ field filter, row.field? = some field ∧ field.isRelation = true ∧ row.value = .filter filter

/-- A row shows another one: it is this row, or it is no draft and holds a row that shows it. -/
inductive Shows (sub : Condition σ) : Condition σ → Prop
  | self : Shows sub sub
  | inside {row inner : Condition σ} {before after : List (Condition σ)}
      (hdraft : row.isDraft = false) (hvalue : row.value = .conditions (before ++ inner :: after))
      (hinner : Shows sub inner) : Shows sub row

/-- The text of a row has these words in the place of another row: they are its whole text, or the
text of one of the rows that it holds, at the place of this row among them, has them so. -/
inductive ReadsIn (sub : Condition σ) (words : String) : Condition σ → String → Prop
  | self : ReadsIn sub words sub words
  | inside {row inner : Condition σ} {before after : List (Condition σ)}
      {left right : List String} {text : String} (word : String) (hdraft : row.isDraft = false)
      (hvalue : row.value = .conditions (before ++ inner :: after))
      (hleft : left.length = before.length) (hright : right.length = after.length)
      (hinner : ReadsIn sub words inner text) :
      ReadsIn sub words row
        (row.label ++ " " ++ word ++ " " ++ enclose (left ++ text :: right))

/-! ### A draft alone -/

/-- Whatever stands inside it, a draft is shown by its label and an ellipsis. -/
theorem render_draft {row : Condition σ} (h : row.isDraft = true) (word : String)
    (inner : List String) : render row word inner = row.draftWords := by
  rw [render, if_pos h, draftWords]

/-- A row is put into words by those of its operator and of the rows inside it. -/
theorem withWords_eq (word : Condition σ → String) (row : Condition σ) :
    withWords word row = render row (word row) (innerWithWords word row.value) := by
  cases row
  rfl

/-- A draft is shown in the same way whatever words operators have. -/
theorem withWords_draft {row : Condition σ} (h : row.isDraft = true)
    (word : Condition σ → String) : withWords word row = row.draftWords := by
  rw [withWords_eq, render_draft h]

/-- A blank operator stands for no ellipsis, whatever comes behind it. -/
theorem headline_ne_draftWords {row : Condition σ} (h : row.isDraft = true)
    (sentences : List String) : row.headline sentences ≠ row.draftWords := by
  have hblank : Text.allBlank row.operator = true := h
  rw [headline, draftWords]
  cases sentences with
  | nil =>
    intro heq
    have hoperator : row.operator = ellipsis := String.append_right_inj _ |>.1 heq
    rw [hoperator] at hblank
    exact absurd hblank (by decide)
  | cons first rest =>
    intro heq
    have hlength := congrArg String.length heq
    have henclosed := two_le_length_enclose (List.cons_ne_nil first rest)
    have hellipsis : ellipsis.length = 1 := rfl
    simp only [List.isEmpty_cons, Bool.false_eq_true, if_false, String.length_append] at hlength
    omega

variable [Schema σ]

/-- The sentence of a draft that keeps no filter does not look at the schema. -/
theorem sentence_draft {row : Condition σ} (hdraft : row.isDraft = true)
    (h : ¬ row.KeepsFilter) : row.sentence = pure row.draftWords := by
  obtain ⟨id, subject, operator, value, parent⟩ := row
  cases value with
  | conditions rows => rw [sentence_conditions rfl, if_pos hdraft, render_draft hdraft]
  | filter filter =>
    rw [sentence]
    cases subject with
    | labelOnly label => exact congrArg pure (render_draft hdraft _ _)
    | field field =>
      have hscalar : ¬ field.isRelation = true :=
        fun hrelation => h ⟨field, filter, rfl, hrelation, rfl⟩
      simp only [field?, Subject.field?, if_neg hscalar]
      exact congrArg pure (withWords_draft hdraft _)
  | _ =>
    rw [sentence]
    exact congrArg pure (render_draft hdraft _ _)

/-- The sentence of a draft is that of any draft, unless it keeps a filter on a relation. -/
theorem sentence_draft_iff {row : Condition σ} (hdraft : row.isDraft = true)
    (resolver : Resolver σ) :
    (row.sentence resolver).1 = row.draftWords ↔ ¬ row.KeepsFilter := by
  constructor
  · rintro hwords ⟨field, filter, hfield, hrelation, hvalue⟩
    rw [sentence_filter hfield hrelation hvalue] at hwords
    exact headline_ne_draftWords hdraft _ hwords
  · intro h
    rw [sentence_draft hdraft h]
    rfl

/-! ### A draft inside other rows -/

omit [Schema σ] in
/-- A row that holds rows shows the text of each of them. -/
theorem ReadsIn.render {sub row inner : Condition σ} {before after : List (Condition σ)}
    {left right : List String} {words text : String} (hinner : ReadsIn sub words inner text)
    (hdraft : row.isDraft = false) (hvalue : row.value = .conditions (before ++ inner :: after))
    (hleft : left.length = before.length) (hright : right.length = after.length)
    (word : String) : ReadsIn sub words row (render row word (left ++ text :: right)) := by
  have hne : (left ++ text :: right).isEmpty = false := List.isEmpty_eq_false_iff.2 (by simp)
  rw [render_conditions hdraft hvalue, hne, if_neg Bool.false_ne_true]
  exact .inside word hdraft hvalue hleft hright hinner

omit [Schema σ] in
/-- The words of a row that is shown stand in its place, also those of a chip. -/
theorem Shows.withWords {sub row : Condition σ} (h : Shows sub row) (word : Condition σ → String) :
    ReadsIn sub (withWords word sub) row (withWords word row) := by
  induction h with
  | self => exact .self
  | @inside row inner before after hdraft hvalue _ ih =>
    have hrows : innerWithWords word row.value =
        before.map (Describe.withWords word) ++ Describe.withWords word inner ::
          after.map (Describe.withWords word) := by
      rw [hvalue, innerWithWords, rowsWithWords_eq_map, List.map_append, List.map_cons]
    rw [withWords_eq word row, hrows]
    exact ih.render hdraft hvalue (List.length_map _) (List.length_map _) (word row)

/-- Each row has one sentence. -/
theorem length_mapM_sentence (rows : List (Condition σ)) (resolver : Resolver σ) :
    (rows.mapM sentence resolver).1.length = rows.length := by
  induction rows generalizing resolver with
  | nil => rfl
  | cons row rows ih =>
    rw [List.mapM_cons, Lookup.run_bind, Lookup.run_bind, Lookup.run_pure, List.length_cons, ih,
      List.length_cons]

/-- Among the sentences of rows each row has its own, with the resolver as it is by then. -/
theorem exists_split_sentences (before after : List (Condition σ)) (inner : Condition σ)
    (resolver : Resolver σ) : ∃ left right later,
      ((before ++ inner :: after).mapM sentence resolver).1 =
        left ++ (inner.sentence later).1 :: right ∧
      left.length = before.length ∧ right.length = after.length := by
  induction before generalizing resolver with
  | nil =>
    refine ⟨[], (after.mapM sentence (inner.sentence resolver).2).1, resolver, ?_, rfl,
      length_mapM_sentence _ _⟩
    rw [List.nil_append, List.mapM_cons]
    rfl
  | cons row before ih =>
    obtain ⟨left, right, later, heq, hleft, hright⟩ := ih (row.sentence resolver).2
    refine ⟨(row.sentence resolver).1 :: left, right, later, ?_, congrArg Nat.succ hleft, hright⟩
    rw [List.cons_append, List.mapM_cons, Lookup.run_bind, Lookup.run_bind, Lookup.run_pure, heq,
      List.cons_append]

/-- The sentence of a row that is shown stands in its place, with the resolver as it is by then. -/
theorem Shows.sentence {sub row : Condition σ} (h : Shows sub row) (resolver : Resolver σ) :
    ∃ later, ReadsIn sub (sub.sentence later).1 row (row.sentence resolver).1 := by
  induction h generalizing resolver with
  | self => exact ⟨resolver, .self⟩
  | @inside row inner before after hdraft hvalue _ ih =>
    obtain ⟨left, right, middle, heq, hleft, hright⟩ :=
      exists_split_sentences before after inner resolver
    obtain ⟨later, hinner⟩ := ih middle
    refine ⟨later, ?_⟩
    rw [sentence_conditions hvalue, hdraft, if_neg Bool.false_ne_true, Lookup.run_bind,
      Lookup.run_pure, heq]
    exact hinner.render hdraft hvalue hleft hright row.operator

end Condition

/-! ### Restored rows -/

section Restored

/-- The row of the value of a field has an operator that its type offers. -/
theorem not_isDraft_of_mem_headRows {field : Field σ} {parent : Option String} {value : Json}
    {row : Condition σ} (h : row ∈ headRows field parent value) : row.isDraft = false := by
  unfold headRows at h
  split at h
  · split at h
    · obtain ⟨pair, -, hrow⟩ := List.mem_filterMap.1 h
      obtain ⟨label, hlabel, rfl⟩ := Option.map_eq_some_iff.1 hrow
      obtain ⟨spec, hspec, rfl⟩ := Option.map_eq_some_iff.1 hlabel
      exact not_allBlank_label (List.mem_of_find?_eq_some hspec)
    · exact absurd h List.not_mem_nil
  · obtain ⟨pair, hpair, rfl⟩ := List.mem_map.1 h
    obtain ⟨spec, hspec, hlabel, -⟩ := exists_spec_of_mem_scalarRows hpair
    have hblank := not_allBlank_label hspec
    rw [← hlabel] at hblank
    exact hblank

/-- No row is restored as a draft, from however many levels. -/
theorem not_isDraft_of_mem_levelRows [Schema σ] {levels : Nat} {scope : List (Field σ)}
    {parent : Option String} {filter : Object} {resolver : Resolver σ} {row : Condition σ}
    (h : row ∈ (levelRows levels scope parent filter resolver).1) : row.isDraft = false := by
  induction levels generalizing scope parent filter resolver with
  | zero => exact absurd h List.not_mem_nil
  | succ levels ih =>
    obtain ⟨entry, -, _, hrow⟩ := Lookup.mem_flatMap h
    obtain ⟨field, hhead | ⟨_, _, _, _, _, _, _, hinner⟩⟩ := mem_entryRows hrow
    · exact not_isDraft_of_mem_headRows hhead
    · exact ih hinner

end Restored

/-! ### Exactness -/

open Condition in
/-- A draft reads as a draft, in whatever way it is put into words and wherever it is shown, with
one exception: its sentence is another one if and only if it keeps a filter on a relation.  A
restored row is no draft. -/
theorem draft_reads_iff [Schema σ] {row : Condition σ} (hdraft : row.isDraft = true) :
    row.plainSentence = row.draftWords ∧ row.chip = row.draftWords ∧
      (∀ resolver, (row.sentence resolver).1 = row.draftWords ↔ ¬ row.KeepsFilter) ∧
      (∀ outer, Shows row outer →
        ReadsIn row row.draftWords outer outer.plainSentence ∧
        ReadsIn row row.draftWords outer outer.chip ∧
        ∀ resolver, ∃ words, ReadsIn row words outer (outer.sentence resolver).1 ∧
          (words = row.draftWords ↔ ¬ row.KeepsFilter)) ∧
      ∀ fields filter, row ∉ restore fields filter := by
  have hplain := withWords_draft hdraft operator
  have hchip := withWords_draft hdraft glyph
  refine ⟨hplain, hchip, sentence_draft_iff hdraft, fun outer hshows => ?_, fun _ _ hmem => ?_⟩
  · refine ⟨hplain ▸ hshows.withWords operator, hchip ▸ hshows.withWords glyph, fun resolver => ?_⟩
    obtain ⟨later, hreads⟩ := hshows.sentence resolver
    exact ⟨_, hreads, sentence_draft_iff hdraft later⟩
  · rw [not_isDraft_of_mem_levelRows hmem] at hdraft
    exact Bool.false_ne_true hdraft

/-- A row on the company of staff with a blank operator. -/
def draftCompany (value : Value Scope) : Condition Scope :=
  .row none companyField "" value

/-- A draft on the company reads as one inside a row on the company, unless it keeps a filter. -/
theorem draftCompany_reads :
    let draft := draftCompany (.text "acme")
    let outer := Condition.row none companyField "possui" (.conditions [draft])
    draft.isDraft = true ∧ draft.Shows outer ∧ ¬ draft.KeepsFilter ∧
      draft.plainSentence = "Empresa …" ∧ draft.chip = "Empresa …" ∧
      (∀ resolver, (draft.sentence resolver).1 = "Empresa …") ∧
      draft.ReadsIn "Empresa …" outer outer.plainSentence ∧
      ∀ resolver, draft.ReadsIn "Empresa …" outer (outer.sentence resolver).1 := by
  intro draft outer
  have hdraft : draft.isDraft = true := rfl
  have hvalue : outer.value = .conditions ([] ++ draft :: []) := rfl
  have hshows : draft.Shows outer := .inside (by decide) hvalue .self
  have hnone : ¬ draft.KeepsFilter := by
    rintro ⟨field, filter, -, -, hfilter⟩
    exact absurd hfilter (by simp [draft, draftCompany, Condition.row])
  obtain ⟨hplain, hchip, hsentence, hinside, -⟩ := draft_reads_iff hdraft
  obtain ⟨hreads, -, hlater⟩ := hinside outer hshows
  refine ⟨hdraft, hshows, hnone, hplain, hchip, fun resolver => (hsentence resolver).2 hnone,
    hreads, fun resolver => ?_⟩
  obtain ⟨words, hwords, hiff⟩ := hlater resolver
  obtain rfl := hiff.2 hnone
  exact hwords

/-- Its filter of companies whose name contains `acme` makes a draft read otherwise. -/
theorem draftCompany_not_reads :
    let draft := draftCompany (.filter [("name", .object [("contains", .string "acme")])])
    draft.isDraft = true ∧ draft.plainSentence = "Empresa …" ∧ draft.chip = "Empresa …" ∧
      draft.words .staff = "Empresa  (Nome contém acme)" ∧ draft.words .staff ≠ "Empresa …" := by
  intro draft
  have hname : (rowOf (.scalar .text "company__name" "Nome") none "contém" (.text "acme") :
      Condition Scope).words .staff = "Nome contém acme" := by
    rw [Condition.words, Condition.sentence]
    rfl
  have hwords : draft.words .staff = "Empresa  (Nome contém acme)" := by
    rw [Condition.words_filter rfl (known_fields _ companyField_mem) rfl rfl]
    have hrows : topLevel (restore (fieldsOf ⟨.companies, "company__"⟩)
        [("name", .object [("contains", .string "acme")])]) =
          [rowOf (.scalar .text "company__name" "Nome") none "contém" (.text "acme")] := rfl
    rw [hrows, List.map_singleton, hname]
    rfl
  refine ⟨rfl, rfl, rfl, hwords, ?_⟩
  rw [hwords]
  decide

end QueryFilter
