import QueryFilter.Filter.Describe
import QueryFilter.Proofs.Catalog.Paths
import QueryFilter.Proofs.Filter.Grounded

/-!
# Restored rows in words

A restored row has the same words in every resolver that remembers what the schema says
(`sentence_answers`).  A row on a relation is put into words by the rows without a parent that its
filter is restored to (`words_filter`), and a row that holds rows by those (`render_conditions`).
-/

namespace QueryFilter

open Catalog Describe Lookup

/-! ### Rows that hold rows -/

namespace Describe

variable {σ : Type}

/-- Sentences inside a relation stand in parentheses. -/
theorem enclose_eq {sentences : List String} (h : sentences ≠ []) :
    enclose sentences =
      "(" ++ Text.joinWith (" " ++ conjunction ++ " ") sentences ++ ")" := by
  rw [enclose, List.isEmpty_eq_false_iff.2 h, if_neg Bool.false_ne_true]

/-- Sentences in parentheses have at least the two parentheses as characters. -/
theorem two_le_length_enclose {sentences : List String} (h : sentences ≠ []) :
    2 ≤ (enclose sentences).length := by
  rw [enclose_eq h, String.length_append, String.length_append]
  have hparen : "(".length = 1 ∧ ")".length = 1 := ⟨rfl, rfl⟩
  omega

/-- A row that holds rows puts their sentences in parentheses, unless it is a draft. -/
theorem render_conditions {row : Condition σ} (hdraft : row.isDraft = false)
    {rows : List (Condition σ)} (hvalue : row.value = .conditions rows) (word : String)
    (sentences : List String) :
    render row word sentences =
      if sentences.isEmpty then row.label ++ " " ++ word
      else row.label ++ " " ++ word ++ " " ++ enclose sentences := by
  have hrange : (if row.operator = betweenLabel then range? row.value else none) = none := by
    rw [hvalue]
    exact ite_self none
  have hwords : valueWords row.value sentences = enclose sentences := by
    rw [hvalue]
    rfl
  rw [render, hdraft, if_neg Bool.false_ne_true, hrange, hwords]
  cases sentences with
  | nil => rfl
  | cons first rest =>
    have hlength := two_le_length_enclose (List.cons_ne_nil first rest)
    refine if_neg fun hempty => ?_
    rw [hempty] at hlength
    exact absurd hlength (by decide)

end Describe

namespace Condition

section Recursion

variable {σ : Type} [Schema σ]

/-- The words of a row on a relation, given the sentences of the rows inside it. -/
def headline (row : Condition σ) (sentences : List String) : String :=
  let head := row.label ++ " " ++ row.operator
  if sentences.isEmpty then head else head ++ " " ++ enclose sentences

/-- The proof that a row is smaller does not matter for its words. -/
theorem mapM_attach_sentence (rows : List (Condition σ)) :
    (rows.attach.mapM fun sub => sentence sub.1) = rows.mapM sentence := by
  conv => rhs; rw [← List.attach_map_subtype_val rows]
  rw [List.mapM_map]
  rfl

/-- A row that holds rows puts them into words one after the other, unless it is a draft. -/
theorem sentence_conditions {row : Condition σ} {rows : List (Condition σ)}
    (hvalue : row.value = .conditions rows) :
    row.sentence =
      if row.isDraft then pure (render row row.operator [])
      else do
        let sentences ← rows.mapM sentence
        return render row row.operator sentences := by
  rw [sentence]
  split
  · rename_i filter hfilter
    exact absurd (hvalue.symm.trans hfilter) (by simp)
  · rename_i other hother
    obtain rfl := Value.conditions.inj (hvalue.symm.trans hother)
    congr 2
    exact mapM_attach_sentence _
  · rename_i hnone
    exact absurd hvalue (hnone rows)

/-- The filter of a row on a relation is read with the fields below the relation. -/
theorem sentence_filter {row : Condition σ} {field : Field σ} (hfield : row.field? = some field)
    (htype : field.isRelation = true) {filter : Object} (hvalue : row.value = .filter filter) :
    row.sentence = do
      let fields ← Resolver.relationFields field
      let sentences ← (topLevel (restore fields filter)).mapM sentence
      return row.headline sentences := by
  rw [sentence]
  split
  · rename_i other hother
    obtain rfl := Value.filter.inj (hvalue.symm.trans hother)
    simp only [hfield, htype, if_true]
    congr 1
    funext fields
    congr 1
    exact mapM_attach_sentence _
  · rename_i rows hrows
    exact absurd (hvalue.symm.trans hrows) (by simp)
  · rename_i hnone _
    exact absurd hvalue (hnone filter)

/-- All other rows without rows of their own are put into words without a look at the schema. -/
theorem sentence_eq_pure {row : Condition σ} (hkept : ∀ rows, row.value ≠ .conditions rows)
    (h : ∀ field, row.field? = some field → field.isRelation = true →
      ∀ filter, row.value ≠ .filter filter) :
    ∃ text, row.sentence = pure text := by
  rw [sentence]
  split
  · rename_i filter hvalue
    split
    · exact ⟨_, rfl⟩
    · rename_i field hfield
      rw [if_neg fun htype => h field hfield htype filter hvalue]
      exact ⟨_, rfl⟩
  · rename_i rows hrows
    exact absurd hrows (hkept rows)
  · exact ⟨_, rfl⟩

end Recursion

/-! ### Words of restored rows -/

/-- The words of a row for a new resolver. -/
def words (root : Resource) (row : Condition Scope) : String :=
  Resolver.eval (fields root) row.sentence

section Words

variable {root : Resource} {row : Condition Scope} {field : Field Scope}
  {relation : Relation Scope} {filter : Object}

/-- The words of a row are its answer, if there is one. -/
theorem answers_words {text : String}
    (h : Answers (Known root) (fields root) row.sentence text) :
    Answers (Known root) (fields root) row.sentence (row.words root) := by
  rwa [words, h.eval]

/-- A row that is put into words without a look at the schema has the same words everywhere. -/
theorem closed_answers (hkept : ∀ rows, row.value ≠ .conditions rows)
    (h : ∀ field, row.field? = some field → field.isRelation = true →
      ∀ filter, row.value ≠ .filter filter) :
    Answers (Known root) (fields root) row.sentence (row.words root) := by
  obtain ⟨text, htext⟩ := sentence_eq_pure hkept h
  have hpure : Answers (Known root) (fields root) row.sentence text := by
    rw [htext]
    exact Answers.pure text
  exact answers_words hpure

/-- A row on a relation has an answer if the rows without a parent that its filter is restored to
have one. -/
theorem filter_answers (hfield : row.field? = some field) (hknown : Known root field)
    (hrelation : field.relation = some relation) (hvalue : row.value = .filter filter)
    (hinner : ∀ sub ∈ topLevel (restore (fieldsOf relation.scope) filter),
      Answers (Known root) (fields root) sub.sentence (sub.words root)) :
    Answers (Known root) (fields root) row.sentence
      (row.headline ((topLevel (restore (fieldsOf relation.scope) filter)).map (words root))) := by
  have htype := hknown.isRelation_iff.2 ⟨relation, hrelation⟩
  rw [sentence_filter hfield htype hvalue]
  apply Answers.bind (Resolver.relationFields_answers (universe_known root) hknown)
  rw [below_of_relation hrelation]
  apply Answers.bind (Answers.mapM hinner)
  exact Answers.pure _

/-- A restored row has the same words in every faithful resolver. -/
theorem sentence_answers (h : row.Restored root) :
    Answers (Known root) (fields root) row.sentence (row.words root) := by
  induction hweight : row.weight using Nat.strongRecOn generalizing row with
  | ind weight ih =>
    obtain ⟨field, hfield, hknown, hkept, -⟩ := h
    by_cases hopen : field.isRelation = true ∧ ∃ filter, row.value = .filter filter
    · obtain ⟨htype, filter, hvalue⟩ := hopen
      obtain ⟨relation, hrelation⟩ := hknown.isRelation_iff.1 htype
      apply answers_words
      apply filter_answers hfield hknown hrelation hvalue
      intro sub hsub
      have hmem := (List.mem_filter.1 hsub).1
      obtain ⟨below, hbelow, howner⟩ := hknown
      have hreach := hbelow.step howner hrelation
      -- the filter that a row keeps is smaller than the row
      have hlt : sub.weight < weight := hweight ▸ weight_lt_of_restored hvalue hmem
      exact ih _ hlt (restored_of_mem_restore hreach hmem) rfl
    · refine closed_answers hkept fun other hother htype filter hvalue => ?_
      rw [hfield] at hother
      rw [← Option.some.inj hother] at htype
      exact hopen ⟨htype, filter, hvalue⟩

/-- A row on a relation is put into words by the rows without a parent that its filter is restored
to. -/
theorem words_filter (hfield : row.field? = some field) (hknown : Known root field)
    (hrelation : field.relation = some relation) (hvalue : row.value = .filter filter) :
    row.words root =
      row.headline ((topLevel (restore (fieldsOf relation.scope) filter)).map (words root)) := by
  refine (filter_answers hfield hknown hrelation hvalue fun sub hsub => ?_).eval
  obtain ⟨below, hbelow, howner⟩ := hknown
  exact sentence_answers
    (restored_of_mem_restore (hbelow.step howner hrelation) (List.mem_filter.1 hsub).1)

end Words

end Condition

end QueryFilter
