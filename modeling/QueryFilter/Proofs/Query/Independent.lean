import QueryFilter.Proofs.Json.Same
import QueryFilter.Proofs.Query.Insert

/-!
# Pairs that change places

Two pairs whose paths name different places, neither of them within the other, may change places in
a query string (`independent_pairs_commute`): the object that is read says the same, up to the order
of its keys.

Putting the two leaves into an object leaves the same in either order (`same_insertAt_comm`),
whatever the object holds.  The leaves that follow keep this (`same_insertAll`), also those that
append: objects that say the same have as many entries, hence the same next index.
-/

namespace QueryFilter.Query

open Text

/-! ### Leaves that are put into objects that say the same -/

/-- Values that are the same up to order have entries that are the same up to order. -/
theorem same_below {x y : Option Json} (h : Option.Rel Json.Same x y) :
    Json.Same (.object (below x)) (.object (below y)) := by
  cases h with
  | none => exact .refl _
  | some hxy => exact hxy.entries

/-- A text that is placed on values that are the same up to order leaves such values. -/
theorem same_placed (text : Option String) {x y : Option Json} (h : Option.Rel Json.Same x y) :
    Json.Same (placed text x) (placed text y) := by
  cases text with
  | some s => exact .refl _
  | none => exact same_below h

/-- A leaf that is put into objects that say the same leaves objects that say the same. -/
theorem same_insertAt (text : Option String) (path : List String) {a b : Object}
    (ha : EntriesWellKeyed a) (hb : EntriesWellKeyed b) (h : Json.Same (.object a) (.object b)) :
    Json.Same (.object (insertAt text path a)) (.object (insertAt text path b)) := by
  induction path generalizing a b with
  | nil => exact h
  | cons segment rest ih =>
    have hkey : keyFor a segment = keyFor b segment := by
      rw [keyFor, keyFor, h.length_eq ha.distinct hb.distinct]
    rw [insertAt_cons, insertAt_cons, hkey]
    refine h.alter ?_
    cases rest with
    | nil => exact same_placed text (h.get? _)
    | cons next rest =>
      exact ih (wellKeyed_below ha _) (wellKeyed_below hb _) (same_below (h.get? _))

/-- Whatever leaves are put into objects that say the same, the objects say the same afterwards. -/
theorem same_insertAll (leaves : List Leaf) {a b : Object} (ha : EntriesWellKeyed a)
    (hb : EntriesWellKeyed b) (h : Json.Same (.object a) (.object b)) :
    Json.Same (.object (insertAll a leaves)) (.object (insertAll b leaves)) := by
  induction leaves generalizing a b with
  | nil => exact h
  | cons leaf leaves ih =>
    exact ih (wellKeyed_insertAt _ _ ha) (wellKeyed_insertAt _ _ hb) (same_insertAt _ _ ha hb h)

/-! ### Two leaves in either order -/

/-- Both paths name all their keys, and neither leads to the other or within it. -/
structure Independent (p q : List String) : Prop where
  named_left : "" ∉ p
  named_right : "" ∉ q
  not_prefix : ¬ p <+: q
  not_prefix_symm : ¬ q <+: p

/-- Paths that are independent below one key are so without it. -/
theorem Independent.tail {key : String} {p q : List String}
    (h : Independent (key :: p) (key :: q)) : Independent p q where
  named_left hmem := h.named_left (List.mem_cons_of_mem _ hmem)
  named_right hmem := h.named_right (List.mem_cons_of_mem _ hmem)
  not_prefix hprefix := h.not_prefix ((List.prefix_cons_inj key).2 hprefix)
  not_prefix_symm hprefix := h.not_prefix_symm ((List.prefix_cons_inj key).2 hprefix)

/-- Independent paths are not empty. -/
theorem Independent.ne_nil {p q : List String} (h : Independent p q) : p ≠ [] ∧ q ≠ [] := by
  constructor
  · rintro rfl
    exact h.not_prefix List.nil_prefix
  · rintro rfl
    exact h.not_prefix_symm List.nil_prefix

/-- Leaves at independent paths leave the same in either order. -/
theorem same_insertAt_comm (s t : Option String) {p q : List String} (h : Independent p q)
    (object : Object) :
    Json.Same (.object (insertAt t q (insertAt s p object)))
      (.object (insertAt s p (insertAt t q object))) := by
  induction p generalizing q object with
  | nil => exact absurd rfl h.ne_nil.1
  | cons k p ih =>
    obtain ⟨l, q, rfl⟩ := List.exists_cons_of_ne_nil h.ne_nil.2
    have hk : k ≠ "" := fun heq => h.named_left (heq ▸ List.mem_cons_self)
    have hl : l ≠ "" := fun heq => h.named_right (heq ▸ List.mem_cons_self)
    simp only [insertAt_cons, keyFor_of_ne hk, keyFor_of_ne hl]
    by_cases hkl : k = l
    · -- the paths part further down: both leaves change the entry at one key
      subst hkl
      obtain ⟨hp, hq⟩ := h.tail.ne_nil
      rw [Entries.alter_alter, Entries.alter_alter]
      refine (Json.Same.refl (.object object)).alter ?_
      simp only [written_of_ne_nil hp, written_of_ne_nil hq]
      exact ih h.tail _
    · exact Json.same_alter_comm hkl object _ _

/-! ### Query strings in pieces -/

/-- A pair without a question mark in front and without blanks at its ends. -/
def PlainPair (part : String) : Prop :=
  trim part = part ∧ part.toList.head? ≠ some '?'

instance : DecidablePred PlainPair := fun part =>
  inferInstanceAs (Decidable (trim part = part ∧ part.toList.head? ≠ some '?'))

/-- The leaves of the pairs among pieces; empty pieces are none. -/
def pieceLeaves (parts : List String) : List Leaf :=
  (parts.filter (· ≠ "")).map fun part => parsePair part.toList

/-- The leaves of pieces are read part by part. -/
theorem pieceLeaves_append (a b : List String) :
    pieceLeaves (a ++ b) = pieceLeaves a ++ pieceLeaves b := by
  rw [pieceLeaves, List.filter_append, List.map_append]
  rfl

/-- A piece with characters is read as a pair. -/
theorem pieceLeaves_cons {part : String} (h : part ≠ "") (parts : List String) :
    pieceLeaves (part :: parts) = parsePair part.toList :: pieceLeaves parts := by
  rw [pieceLeaves, List.filter_cons_of_pos (by simpa using h)]
  rfl

/-- Empty pieces have no leaves. -/
theorem pieceLeaves_of_empty {parts : List String} (h : ∀ part ∈ parts, part = "") :
    pieceLeaves parts = [] := by
  have hnone : parts.filter (· ≠ "") = [] :=
    List.filter_eq_nil_iff.2 fun part hpart => by simp [h part hpart]
  rw [pieceLeaves, hnone, List.map_nil]

/-- The pieces of joined texts are the texts, if none of them has the separator. -/
theorem pieces_joinWith {parts : List String} (hne : parts ≠ [])
    (h : ∀ part ∈ parts, '&' ∉ part.toList) : pieces '&' (joinWith "&" parts) = parts := by
  have hback : (parts.map String.toList).map String.ofList = parts := by
    simp [Function.comp_def]
  have hsep : ∀ cs ∈ parts.map String.toList, '&' ∉ cs := by
    intro cs hcs
    obtain ⟨part, hpart, rfl⟩ := List.mem_map.1 hcs
    exact h part hpart
  have hpieces := piecesAt_joinWith (by simpa using hne) hsep
  rw [hback] at hpieces
  change piecesAt '&' (joinWith "&" parts).toList = parts.map String.toList at hpieces
  rw [pieces, hpieces, hback]

/-- The leaves of a query string are those of its pairs. -/
theorem pieceLeaves_pieces (query : String) : pieceLeaves (pieces '&' query) =
    ((piecesAt '&' query.toList).filter fun pair => !pair.isEmpty).map parsePair := by
  have hempty : ((fun part => decide (part ≠ "")) ∘ String.ofList) =
      fun pair : List Char => !pair.isEmpty := by
    funext pair
    cases pair with
    | nil => rfl
    | cons c cs => simp
  have hread : ((fun part : String => parsePair part.toList) ∘ String.ofList) = parsePair := by
    funext pair
    rw [Function.comp_apply, String.toList_ofList]
  rw [pieceLeaves, pieces, List.filter_map, List.map_map, hempty, hread]

/-- Plain pairs that are joined are plain again: a text ends as its first and its last pair do, or
with a separator. -/
theorem plain_of_pieces {cs : List Char}
    (h : ∀ piece ∈ piecesAt '&' cs, trimChars piece = piece ∧ piece.head? ≠ some '?') :
    trimChars cs = cs ∧ cs.head? ≠ some '?' := by
  have hfirst : ∀ c ∈ cs.head?, isBlank c = false ∧ c ≠ '?' := by
    intro c hc
    by_cases hsep : c = '&'
    · subst hsep
      exact ⟨by decide, by decide⟩
    · obtain ⟨piece, hpiece, hstart⟩ := exists_piece_head hc hsep
      obtain ⟨htrim, hquestion⟩ := h piece hpiece
      exact ⟨(ends_of_trimChars htrim).1 c hstart, fun heq => hquestion (heq ▸ hstart)⟩
  have hlast : ∀ c ∈ cs.getLast?, isBlank c = false := by
    intro c hc
    by_cases hsep : c = '&'
    · subst hsep
      decide
    · obtain ⟨piece, hpiece, hend⟩ := exists_piece_last hc hsep
      exact (ends_of_trimChars (h piece hpiece).1).2 c hend
  exact ⟨trimChars_of_ends (fun c hc => (hfirst c hc).1) hlast, fun hc => (hfirst _ hc).2 rfl⟩

/-- A query string of plain pairs is read pair by pair: nothing is taken off its ends. -/
theorem deserialize_of_plain {query : String} (hplain : ∀ part ∈ pieces '&' query, PlainPair part)
    (hne : ∃ part ∈ pieces '&' query, part ≠ "") :
    deserialize query = some (insertAll [] (pieceLeaves (pieces '&' query))) := by
  obtain ⟨htrim, hquestion⟩ : trimChars query.toList = query.toList ∧
      query.toList.head? ≠ some '?' := by
    refine plain_of_pieces fun piece hpiece => ?_
    have hpart := hplain _ (List.mem_map_of_mem hpiece)
    rwa [PlainPair, trim_eq_self, String.toList_ofList] at hpart
  rw [deserialize, splitPairs, pieceLeaves_pieces]
  simp only [htrim]
  cases hcs : query.toList with
  | nil =>
    obtain ⟨part, hpart, hpart'⟩ := hne
    rw [pieces, hcs] at hpart
    exact absurd (List.mem_singleton.1 hpart) hpart'
  | cons c cs =>
    split
    · rename_i heq
      exact absurd (hcs ▸ congrArg some (List.cons.inj heq).1) hquestion
    · rfl

/-! ### Neighbours in a query string -/

/-- A piece whose keys are all named has characters. -/
theorem ne_empty_of_named {part : String} (h : "" ∉ (parsePair part.toList).path) : part ≠ "" := by
  rintro rfl
  exact h (by decide)

/-- Independent pairs commute: if two neighbours among plain pairs have independent paths, with
nothing but empty pieces between them, the query string in which they change places is read as an
object that says the same. -/
theorem independent_pairs_commute {query x y : String} {before gap after : List String}
    (hpieces : pieces '&' query = before ++ x :: (gap ++ y :: after))
    (hplain : ∀ part ∈ pieces '&' query, PlainPair part) (hgap : ∀ part ∈ gap, part = "")
    (h : Independent (parsePair x.toList).path (parsePair y.toList).path) :
    ∃ a b, deserialize query = some a ∧
      deserialize (joinWith "&" (before ++ y :: (gap ++ x :: after))) = some b ∧
      Json.Same (.object a) (.object b) := by
  have hx : x ≠ "" := ne_empty_of_named h.named_left
  have hy : y ≠ "" := ne_empty_of_named h.named_right
  have hsame : ∀ part ∈ before ++ y :: (gap ++ x :: after), part ∈ pieces '&' query := by
    intro part hpart
    rw [hpieces]
    simp only [List.mem_append, List.mem_cons] at hpart ⊢
    rcases hpart with hpart | hpart | hpart | hpart | hpart <;> simp [hpart]
  have hsep : ∀ part ∈ before ++ y :: (gap ++ x :: after), '&' ∉ part.toList := by
    intro part hpart
    obtain ⟨piece, hpiece, rfl⟩ := List.mem_map.1 (hsame part hpart)
    rw [String.toList_ofList]
    exact not_mem_of_mem_piecesAt hpiece
  have hswapped := pieces_joinWith (by simp) hsep
  -- the empty pieces between both pairs have no leaves
  have hleaves : ∀ first second : String, first ≠ "" → second ≠ "" →
      pieceLeaves (before ++ first :: (gap ++ second :: after)) =
        pieceLeaves before ++ parsePair first.toList :: parsePair second.toList ::
          pieceLeaves after := by
    intro first second hfirst hsecond
    rw [pieceLeaves_append, pieceLeaves_cons hfirst, pieceLeaves_append,
      pieceLeaves_of_empty hgap, List.nil_append, pieceLeaves_cons hsecond]
  refine ⟨_, _, deserialize_of_plain hplain ⟨x, by simp [hpieces], hx⟩,
    deserialize_of_plain ?_ ⟨y, by simp [hswapped], hy⟩, ?_⟩
  · rw [hswapped]
    exact fun part hpart => hplain part (hsame part hpart)
  · rw [hpieces, hswapped, hleaves x y hx hy, hleaves y x hy hx, insertAll_append,
      insertAll_append]
    have hbefore : EntriesWellKeyed (insertAll [] (pieceLeaves before)) :=
      wellKeyed_insertAll (pieceLeaves before) trivial
    have hput := fun (leaf : Leaf) (object : Object) (h : EntriesWellKeyed object) =>
      wellKeyed_insertAt leaf.text leaf.path h
    exact same_insertAll _ (hput _ _ (hput _ _ hbefore)) (hput _ _ (hput _ _ hbefore))
      (same_insertAt_comm _ _ h _)

/-- Two pairs below one key, which a text gives up to them, with an empty piece between them and a
pair after them that appends. -/
theorem nestedNeighbours_commute :
    ∃ a b, deserialize "a=5&a[c][d]=2&&a[b]&a[]=3" = some a ∧
      deserialize "a=5&a[b]&&a[c][d]=2&a[]=3" = some b ∧ Json.Same (.object a) (.object b) := by
  have hpieces : pieces '&' "a=5&a[c][d]=2&&a[b]&a[]=3" =
      ["a=5"] ++ "a[c][d]=2" :: ([""] ++ "a[b]" :: ["a[]=3"]) := by decide +kernel
  have hplain : ∀ part ∈ pieces '&' "a=5&a[c][d]=2&&a[b]&a[]=3", PlainPair part := by
    decide +kernel
  have hindependent : Independent (parsePair "a[c][d]=2".toList).path
      (parsePair "a[b]".toList).path :=
    ⟨by decide +kernel, by decide +kernel, by decide +kernel, by decide +kernel⟩
  have hswapped : joinWith "&" (["a=5"] ++ "a[b]" :: ([""] ++ "a[c][d]=2" :: ["a[]=3"])) =
      "a=5&a[b]&&a[c][d]=2&a[]=3" := by decide +kernel
  rw [← hswapped]
  exact independent_pairs_commute hpieces hplain (by decide) hindependent

end QueryFilter.Query
