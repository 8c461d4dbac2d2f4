import QueryFilter.Proofs.Condition.Compatible
import QueryFilter.Proofs.Filter.RoundTrip
import QueryFilter.Proofs.Filter.Words

/-!
# Rows read the same after a query string

An edited row on a relation is put into words by the rows that it holds, a restored one by the rows
that its filter is read as (`words_conditions`, `words_filter`).  For rows that come back from a
query string the two ways lead to the same words, at every level of relations (`words_backs`), and
whatever a resolver was asked for before (`sentences_return_from_query`).
-/

namespace QueryFilter

open Catalog Compile Describe Lookup Query

namespace Condition

section Rendering

variable {σ : Type}

/-- The words of a row on a relation depend on its field and its operator. -/
theorem headline_congr {a b : Condition σ} (hsubject : a.subject = b.subject)
    (hoperator : a.operator = b.operator) : a.headline = b.headline := by
  funext sentences
  rw [headline, headline, label, label, hsubject, hoperator]

variable [Schema σ]

/-- Neither the identity of a row nor its parent matters for its sentence. -/
theorem sentence_congr {a b : Condition σ} (hsubject : a.subject = b.subject)
    (hoperator : a.operator = b.operator) (hvalue : a.value = b.value) :
    a.sentence = b.sentence := by
  obtain ⟨_, subject, operator, value, _⟩ := a
  obtain ⟨_, _, _, _, _⟩ := b
  obtain rfl : subject = _ := hsubject
  obtain rfl : operator = _ := hoperator
  obtain rfl : value = _ := hvalue
  cases value <;> (rw [sentence, sentence]; rfl)

end Rendering

/-! ### Words of edited rows -/

section Words

variable {root : Resource} {row : Condition Scope} {rows : List (Condition Scope)}

/-- A row that holds rows has an answer if these have one. -/
theorem conditions_answers (hdraft : row.isDraft = false) (hvalue : row.value = .conditions rows)
    (hinner : ∀ sub ∈ rows, Answers (Known root) (fields root) sub.sentence (sub.words root)) :
    Answers (Known root) (fields root) row.sentence (row.headline (rows.map (words root))) := by
  rw [sentence_conditions hvalue, hdraft, if_neg Bool.false_ne_true]
  refine Answers.bind (Answers.mapM hinner) ?_
  rw [render_conditions hdraft hvalue]
  exact Answers.pure _

/-- A row that holds rows is put into words by these. -/
theorem words_conditions (hdraft : row.isDraft = false) (hvalue : row.value = .conditions rows)
    (hinner : ∀ sub ∈ rows, Answers (Known root) (fields root) sub.sentence (sub.words root)) :
    row.words root = row.headline (rows.map (words root)) :=
  (conditions_answers hdraft hvalue hinner).eval

end Words

end Condition

section Edited

variable {root : Resource} {scope : Scope} {rule : List (Condition Scope) → Prop}
  {rows backs : List (Condition Scope)}

/-- An edited row with an offered operator is no draft. -/
theorem RowOver.not_isDraft {row : Condition Scope} (h : RowOver scope row) :
    row.isDraft = false := by
  obtain ⟨field, _, spec, hspec, _, hoperator⟩ := h.exists_spec
  rw [Condition.isDraft, hoperator, not_allBlank_label hspec]

/-- An edited row has the same words in every faithful resolver. -/
theorem Edited.sentence_answers (h : Edited rule scope rows) (hreach : Reaches root scope) :
    ∀ row ∈ rows, Answers (Known root) (fields root) row.sentence (row.words root) := by
  induction h with
  | level _ hrows _ ih =>
    intro row hmem
    have hdraft := (hrows row hmem).not_isDraft
    cases hrows row hmem with
    | @scalar id field spec value hfield hrelation _ hvalue =>
      have htype := isRelation_of_none hreach.proper hfield hrelation
      have hclosed : ∀ other, some field = some other → other.isRelation = true →
          ∀ filter, value ≠ .filter filter := by
        intro other hother hopen
        rw [← Option.some.inj hother, htype] at hopen
        exact absurd hopen Bool.false_ne_true
      exact Condition.closed_answers hvalue.ne_conditions hclosed
    | @related id field relation spec inner hfield hrelation hspec hinner =>
      have hbelow := ih _ hmem relation inner ⟨field, rfl, hrelation, rfl⟩
        (hreach.step hfield hrelation)
      exact Condition.answers_words (Condition.conditions_answers hdraft rfl hbelow)

/-- Rows have the words of those that are restored in their place. -/
theorem words_backs (h : Returns rows backs) (hreach : Reaches root scope)
    (hrows : ∀ row ∈ rows, RowOver scope row)
    (hbelow : ∀ row ∈ rows, ∀ relation inner, row.Leads relation inner →
      Edited rule relation.scope inner) :
    backs.map (Condition.words root) = rows.map (Condition.words root) := by
  induction h generalizing scope with
  | nil => rfl
  | @scalar row back rows backs hsubject hoperator hvalue _ _ ih =>
    obtain ⟨-, hrows⟩ := List.forall_mem_cons.1 hrows
    obtain ⟨-, hbelow⟩ := List.forall_mem_cons.1 hbelow
    have hwords : back.words root = row.words root := by
      rw [Condition.words, Condition.words, Condition.sentence_congr hsubject hoperator hvalue]
    rw [List.map_cons, List.map_cons, hwords, ih hreach hrows hbelow]
  | @related row back rows backs inner relation hsubject hoperator hleads hvalue _ _ _ ihinner
      ihrest =>
    obtain ⟨hover, hrows⟩ := List.forall_mem_cons.1 hrows
    obtain ⟨hheld, hbelow⟩ := List.forall_mem_cons.1 hbelow
    have hedited := hheld relation inner hleads
    obtain ⟨field, hfield, _, _, hsome, _⟩ := hover.exists_spec
    obtain ⟨own, hown, hrelation, hinner⟩ := hleads
    obtain rfl : own = field := Subject.field.inj (hown.symm.trans hsome)
    have hinside := hreach.step hfield hrelation
    have hrow := Condition.words_conditions hover.not_isDraft hinner
      (hedited.sentence_answers hinside)
    have hback := Condition.words_filter (Condition.field?_eq_some.2 (hsubject.trans hsome))
      (hreach.known own hfield) hrelation hvalue
    -- inside the relation the restored rows have the words of the edited ones
    have hwords : back.words root = row.words root := by
      cases hedited with
      | level _ hover hdeeper =>
        rw [hback, hrow, ihinner hinside hover hdeeper,
          Condition.headline_congr hsubject hoperator]
    rw [List.map_cons, List.map_cons, hwords, ihrest hreach hrows hbelow]

end Edited

/-! ### The whole round trip -/

/-- Rows of an editor, with one row per field at every level, read the same before and after a query
string: the restored rows without a parent have the words of these rows, one for one.  A resolver
that is used for all of them, in whatever order, finds these words each time. -/
theorem sentences_return_from_query (resource : Resource) {rows : List (Condition Scope)}
    (hne : rows ≠ []) (h : Edited OnePerField (.root resource) rows) :
    ∃ filter kept, compile rows = some filter ∧
      deserialize (serialize .standard "" (.object filter)) = some kept ∧
      (topLevel (restore (fields resource) kept)).map (Condition.words resource) =
        rows.map (Condition.words resource) ∧
      ∀ calls : List (Condition Scope),
        (∀ call ∈ calls, call ∈ rows ∨ call ∈ topLevel (restore (fields resource) kept)) →
        Resolver.eval (fields resource) (calls.mapM Condition.sentence) =
          calls.map (Condition.words resource) := by
  have hstart : Reaches resource (.root resource) := .start
  have hlevel := levelReturns hstart h
  have hleft : survivingEntries .standard (compileRows rows) ≠ [] := by
    intro hnil
    have hkeys := hlevel.keys_eq
    rw [hnil] at hkeys
    exact hlevel.ne_nil hne (List.map_eq_nil_iff.1 hkeys.symm)
  have hreturns := hlevel.returns
  rw [reread_eq hlevel.wellKeyed] at hreturns
  have hwords : (topLevel (restore (fields resource)
      (survivingEntries .standard (compileRows rows)))).map (Condition.words resource) =
        rows.map (Condition.words resource) := by
    cases h with
    | level _ hrows hbelow => exact words_backs hreturns hstart hrows hbelow
  refine ⟨_, _, compile_of_ne_nil hne, deserialize_serialize hlevel.wellKeyed hleft, hwords, ?_⟩
  intro calls hcalls
  have hall : ∀ call ∈ calls,
      Answers (Known resource) (fields resource) call.sentence (call.words resource) := by
    intro call hcall
    rcases hcalls call hcall with hedited | hback
    · exact h.sentence_answers hstart call hedited
    · exact Condition.sentence_answers
        (restored_of_mem_restore hstart (List.mem_filter.1 hback).1)
  exact (Answers.mapM hall).eval

/-- The rows on age and company read the same when they are restored. -/
theorem sampleRows_words :
    sampleRows.map (Condition.words .staff) =
        ["Idade maior que 18", "Empresa possui (Nome contém acme)"] ∧
      ∃ filter kept, compile sampleRows = some filter ∧
        deserialize (serialize .standard "" (.object filter)) = some kept ∧
        (topLevel (restore (fields .staff) kept)).map (Condition.words .staff) =
          sampleRows.map (Condition.words .staff) ∧
        ∀ calls : List (Condition Scope),
          (∀ call ∈ calls, call ∈ sampleRows ∨ call ∈ topLevel (restore (fields .staff) kept)) →
          Resolver.eval (fields .staff) (calls.mapM Condition.sentence) =
            calls.map (Condition.words .staff) := by
  have hage : (⟨none, .field (.scalar .number "age" "Idade"), "maior que", .text "18", none⟩ :
      Condition Scope).words .staff = "Idade maior que 18" := by
    rw [Condition.words, Condition.sentence]
    rfl
  have hname : (⟨none, .field (.scalar .text "company__name" "Nome"), "contém", .text "acme",
      none⟩ : Condition Scope).sentence = pure "Nome contém acme" := by
    rw [Condition.sentence]
    rfl
  refine ⟨?_, sentences_return_from_query .staff (List.cons_ne_nil _ _) edited_sampleRows⟩
  rw [sampleRows, List.map_cons, hage, List.map_singleton, Condition.words,
    Condition.sentence_conditions rfl, List.mapM_cons, hname]
  rfl

end QueryFilter
