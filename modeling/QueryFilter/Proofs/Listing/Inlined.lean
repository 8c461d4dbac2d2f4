import Mathlib.Data.List.Basic
import QueryFilter.Listing.ListParams
import QueryFilter.Proofs.Query.Bracket
import QueryFilter.Proofs.Text.Form

/-!
# Bracket pairs among other parameters

A bracket pair that stands among the parameters of a listing gets its key written anew, in the
alphabet of form texts.  If no key of its path holds a bracket (`PlainKey`), then the pair is told
by the path (`bareKey`), and what the server makes of it is read as the same leaf
(`exists_inlined`).
-/

namespace QueryFilter

open Text

/-! ### Keys without brackets -/

/-- A key is plain if it is not empty and has no brackets. -/
def PlainKey (key : String) : Prop :=
  key ≠ "" ∧ '[' ∉ key.toList ∧ ']' ∉ key.toList

mutual

/-- The keys of a value are plain at all levels. -/
def Json.PlainKeys : Json → Prop
  | .array items => ItemsPlainKeys items
  | .object entries => EntriesPlainKeys entries
  | _ => True

/-- The keys within some values are plain. -/
def ItemsPlainKeys : List Json → Prop
  | [] => True
  | item :: items => item.PlainKeys ∧ ItemsPlainKeys items

/-- The keys of an object and those below them are plain. -/
def EntriesPlainKeys : List (String × Json) → Prop
  | [] => True
  | (key, value) :: rest => PlainKey key ∧ value.PlainKeys ∧ EntriesPlainKeys rest

end

/-- The keys of an object with plain keys are plain. -/
theorem EntriesPlainKeys.plainKey {entries : Object} (h : EntriesPlainKeys entries) :
    ∀ key ∈ Entries.keys entries, PlainKey key := by
  induction entries with
  | nil => exact fun _ hkey => absurd hkey List.not_mem_nil
  | cons entry entries ih =>
    obtain ⟨k, value⟩ := entry
    rw [EntriesPlainKeys] at h
    intro key hkey
    rcases List.mem_cons.1 hkey with rfl | hkey
    · exact h.1
    · exact ih h.2.2 key hkey

/-- An index is a plain key. -/
theorem plainKey_natText (n : Nat) : PlainKey (Decimal.natText n) := by
  have hbracket : ∀ c, Decimal.isDigit c = false → c ∉ (Decimal.natText n).toList := by
    intro c hc hmem
    rw [Decimal.isDigit_of_mem_natText hmem] at hc
    exact absurd hc (by decide)
  exact ⟨Decimal.natText_ne_empty n, hbracket _ (by decide), hbracket _ (by decide)⟩

namespace Query

mutual

/-- The paths of the leaves of a value are made of its keys and of indices. -/
theorem plainKey_of_mem_leaves (options : Options) : ∀ {value : Json}, value.PlainKeys →
    ∀ {leaf : Leaf}, leaf ∈ leaves options value → ∀ key ∈ leaf.path, PlainKey key
  | .null, _, leaf, hleaf, key, hkey => by
    rw [leaves_null] at hleaf
    exact absurd hleaf List.not_mem_nil
  | .bool b, _, leaf, hleaf, key, hkey => by
    rw [leaves, List.mem_singleton] at hleaf
    subst hleaf
    exact absurd hkey List.not_mem_nil
  | .number n, _, leaf, hleaf, key, hkey => by
    rw [leaves, List.mem_singleton] at hleaf
    subst hleaf
    exact absurd hkey List.not_mem_nil
  | .string s, _, leaf, hleaf, key, hkey => by
    rw [leaves, List.mem_singleton] at hleaf
    subst hleaf
    exact absurd hkey List.not_mem_nil
  | .object [], _, leaf, hleaf, key, hkey => by
    rw [leaves, List.mem_singleton] at hleaf
    subst hleaf
    exact absurd hkey List.not_mem_nil
  | .object (entry :: entries), hplain, leaf, hleaf, key, hkey => by
    rw [Json.PlainKeys] at hplain
    rw [leaves] at hleaf
    exact plainKey_of_mem_entryLeaves options hplain hleaf key hkey
  | .array items, hplain, leaf, hleaf, key, hkey => by
    rw [Json.PlainKeys] at hplain
    rw [leaves] at hleaf
    exact plainKey_of_mem_itemLeaves options hplain hleaf key hkey

/-- The paths of the leaves of an object with plain keys are plain. -/
theorem plainKey_of_mem_entryLeaves (options : Options) : ∀ {entries : Object},
    EntriesPlainKeys entries → ∀ {leaf : Leaf}, leaf ∈ entryLeaves options entries →
      ∀ key ∈ leaf.path, PlainKey key
  | [], _, leaf, hleaf, key, hkey => by
    rw [entryLeaves] at hleaf
    exact absurd hleaf List.not_mem_nil
  | (k, value) :: rest, hplain, leaf, hleaf, key, hkey => by
    rw [EntriesPlainKeys] at hplain
    rw [entryLeaves, List.mem_append] at hleaf
    rcases hleaf with hleaf | hleaf
    · split at hleaf
      · exact absurd hleaf List.not_mem_nil
      · obtain ⟨below, hbelow, rfl⟩ := List.mem_map.1 hleaf
        rcases List.mem_cons.1 hkey with rfl | hkey
        · exact hplain.1
        · exact plainKey_of_mem_leaves options hplain.2.1 hbelow key hkey
    · exact plainKey_of_mem_entryLeaves options hplain.2.2 hleaf key hkey

/-- The paths of the leaves of items with plain keys are plain. -/
theorem plainKey_of_mem_itemLeaves (options : Options) : ∀ {items : List Json},
    ItemsPlainKeys items → ∀ {index : Nat} {leaf : Leaf}, leaf ∈ itemLeaves options index items →
      ∀ key ∈ leaf.path, PlainKey key
  | [], _, index, leaf, hleaf, key, hkey => by
    rw [itemLeaves] at hleaf
    exact absurd hleaf List.not_mem_nil
  | item :: items, hplain, index, leaf, hleaf, key, hkey => by
    rw [ItemsPlainKeys] at hplain
    rw [itemLeaves, List.mem_append] at hleaf
    rcases hleaf with hleaf | hleaf
    · obtain ⟨below, hbelow, rfl⟩ := List.mem_map.1 hleaf
      rcases List.mem_cons.1 hkey with rfl | hkey
      · exact plainKey_natText index
      · exact plainKey_of_mem_leaves options hplain.1 hbelow key hkey
    · exact plainKey_of_mem_itemLeaves options hplain.2 hleaf key hkey

end

end Query

namespace ListParams

open Query (Leaf bracketChars bracketChars_cons keyChars keyChars_cons pairChars? parseKey parsePair
  isPairChar)

/-! ### A pair with its key in the alphabet of form texts -/

/-- A path as a key without escapes. -/
def bareKey (first : String) (rest : List String) : List Char :=
  first.toList ++ bracketChars (rest.map String.toList)

/-- A path as a key in the alphabet of form texts. -/
def formKey (first : String) (rest : List String) : List Char :=
  Percent.encodeForm first.toList ++
    bracketChars (rest.map fun segment => Percent.encodeForm segment.toList)

/-- The octets of encoded segments in brackets are those of the segments in brackets. -/
theorem octets_bracketChars (segments : List String) :
    Percent.octets (bracketChars (segments.map fun segment => Percent.encode segment.toList)) =
      Utf8.encode (bracketChars (segments.map String.toList)) := by
  induction segments with
  | nil => exact Percent.octets_nil
  | cons segment segments ih =>
    rw [List.map_cons, List.map_cons, bracketChars_cons, bracketChars_cons,
      Percent.octets_cons_of_ne (by decide), Percent.octets_encode_append,
      Percent.octets_cons_of_ne (by decide), ih]
    simp [Utf8.encode]

/-- A form text reads the key of a path without its escapes. -/
theorem decodeForm_keyChars {first : String} (h : first ≠ "") (rest : List String) :
    Percent.decodeForm (keyChars (first :: rest)) = bareKey first rest := by
  have hplus : '+' ∉ keyChars (first :: rest) := by
    intro hmem
    rcases Query.kept_of_mem_keyChars hmem with h | h | h | h <;> exact absurd h (by decide)
  rw [Percent.decodeForm, Percent.plusToBlank_of_not_mem hplus, keyChars_cons h,
    Percent.octets_encode_append, octets_bracketChars, bareKey]
  have happend : Utf8.encode first.toList ++ Utf8.encode (bracketChars (rest.map String.toList)) =
      Utf8.encode (first.toList ++ bracketChars (rest.map String.toList)) :=
    List.flatMap_append.symm
  rw [happend, Utf8.decodeLossy_encode]

/-- Keys are encoded part by part. -/
theorem encodeKey_append (a b : List Char) : encodeKey (a ++ b) = encodeKey a ++ encodeKey b :=
  List.flatMap_append

/-- Without brackets a key is encoded anew as a form text. -/
theorem encodeKey_of_plain {cs : List Char} (hopen : '[' ∉ cs) (hclose : ']' ∉ cs) :
    encodeKey cs = Percent.encodeForm cs := by
  refine List.flatMap_congr fun c hc => ?_
  have hne : ¬ (c = '[' ∨ c = ']') := by
    rintro (rfl | rfl)
    · exact hopen hc
    · exact hclose hc
  rw [if_neg hne, Percent.encodeForm, List.flatMap_singleton]

/-- Of plain segments in brackets the segments are encoded, and the brackets stay. -/
theorem encodeKey_bracketChars {segments : List String} (h : ∀ key ∈ segments, PlainKey key) :
    encodeKey (bracketChars (segments.map String.toList)) =
      bracketChars (segments.map fun segment => Percent.encodeForm segment.toList) := by
  induction segments with
  | nil => rfl
  | cons segment segments ih =>
    obtain ⟨-, hopen, hclose⟩ := h segment List.mem_cons_self
    have hrest := ih fun key hkey => h key (List.mem_cons_of_mem _ hkey)
    have hcons : ∀ (c : Char) (cs : List Char), c = '[' ∨ c = ']' →
        encodeKey (c :: cs) = c :: encodeKey cs := by
      intro c cs hc
      rw [encodeKey, List.flatMap_cons, if_pos hc]
      rfl
    rw [List.map_cons, List.map_cons, bracketChars_cons, bracketChars_cons, hcons _ _ (.inl rfl),
      encodeKey_append, encodeKey_of_plain hopen hclose, hcons _ _ (.inr rfl), hrest]

/-- A path of plain keys is encoded anew segment by segment. -/
theorem encodeKey_bareKey {first : String} {rest : List String}
    (h : ∀ key ∈ first :: rest, PlainKey key) :
    encodeKey (bareKey first rest) = formKey first rest := by
  obtain ⟨-, hopen, hclose⟩ := h first List.mem_cons_self
  rw [bareKey, encodeKey_append, encodeKey_of_plain hopen hclose,
    encodeKey_bracketChars fun key hkey => h key (List.mem_cons_of_mem _ hkey), formKey]

/-- A key in the alphabet of form texts is read as its path. -/
theorem parseKey_formKey {first : String} (h : first ≠ "") (rest : List String) :
    parseKey (formKey first rest) = first :: rest := by
  have hne : Percent.encodeForm first.toList ≠ [] :=
    fun hnil => h (String.toList_inj.1 (Percent.encodeForm_eq_nil.1 hnil))
  have hopen : '[' ∉ Percent.encodeForm first.toList :=
    Percent.not_mem_encodeForm (by decide) (by decide) _
  have hclose : ∀ segment ∈ rest.map fun segment => Percent.encodeForm segment.toList,
      ']' ∉ segment := by
    intro segment hsegment
    obtain ⟨s, -, rfl⟩ := List.mem_map.1 hsegment
    exact Percent.not_mem_encodeForm (by decide) (by decide) _
  rw [formKey, Query.parseKey_append hne hopen hclose, Query.decode_encodeForm, List.map_map]
  exact congrArg (first :: ·) ((List.map_congr_left fun s _ => Query.decode_encodeForm s).trans
    (List.map_id' rest))

/-- A form text is made of characters of pairs. -/
theorem isPairChar_of_mem_encodeForm {cs : List Char} {c : Char}
    (h : c ∈ Percent.encodeForm cs) : isPairChar c = true := by
  rcases Percent.kept_of_mem_encodeForm h with h | rfl | rfl | rfl
  · simp [isPairChar, h]
  all_goals rfl

/-- A form key is made of characters of pairs, and has no equals sign. -/
theorem mem_formKey {first : String} {rest : List String} {c : Char} (h : c ∈ formKey first rest) :
    isPairChar c = true ∧ c ≠ '=' := by
  have hform : ∀ {cs : List Char}, c ∈ Percent.encodeForm cs → isPairChar c = true ∧ c ≠ '=' := by
    intro cs hc
    refine ⟨isPairChar_of_mem_encodeForm hc, ?_⟩
    rintro rfl
    exact Percent.not_mem_encodeForm (by decide) (by decide) cs hc
  rcases List.mem_append.1 h with h | h
  · exact hform h
  · obtain ⟨segment, hsegment, hc⟩ := List.mem_flatMap.1 h
    obtain ⟨s, -, rfl⟩ := List.mem_map.1 hsegment
    rw [List.mem_append, List.mem_cons, List.mem_singleton] at hc
    rcases hc with (rfl | hc) | rfl
    · decide
    · exact hform hc
    · decide

/-- What the server makes of a bracket pair among other parameters. -/
def inlined (segment : List Char) : List Char :=
  inlinePair (Form.pair segment).1 segment

/-- No equals sign stands in a key. -/
theorem eq_not_mem_keyChars (path : List String) : '=' ∉ keyChars path := by
  intro hmem
  rcases Query.kept_of_mem_keyChars hmem with h | h | h | h <;> exact absurd h (by decide)

section Inlined

variable {first : String} {rest : List String}

/-- A key without a value is told by its path, and written anew. -/
theorem inlined_keyChars (h : ∀ key ∈ first :: rest, PlainKey key) :
    (Form.pair (keyChars (first :: rest))).1 = bareKey first rest ∧
      inlined (keyChars (first :: rest)) = formKey first rest := by
  have hfirst : first ≠ "" := (h first List.mem_cons_self).1
  have hkey : (Form.pair (keyChars (first :: rest))).1 = bareKey first rest := by
    rw [Form.pair_of_not_mem (eq_not_mem_keyChars _), decodeForm_keyChars hfirst]
  refine ⟨hkey, ?_⟩
  rw [inlined, hkey, inlinePair, cutAt_eq_none.2 (eq_not_mem_keyChars _), encodeKey_bareKey h]

/-- A key with a value is told by its path, and written anew with the value as it is. -/
theorem inlined_append (h : ∀ key ∈ first :: rest, PlainKey key) (value : List Char) :
    (Form.pair (keyChars (first :: rest) ++ '=' :: value)).1 = bareKey first rest ∧
      inlined (keyChars (first :: rest) ++ '=' :: value) = formKey first rest ++ '=' :: value := by
  have hfirst : first ≠ "" := (h first List.mem_cons_self).1
  have hkey : (Form.pair (keyChars (first :: rest) ++ '=' :: value)).1 = bareKey first rest := by
    rw [Form.pair_append (eq_not_mem_keyChars _), decodeForm_keyChars hfirst]
  refine ⟨hkey, ?_⟩
  rw [inlined, hkey, inlinePair, cutAt_append (eq_not_mem_keyChars _)]
  simp only [encodeKey_bareKey h]

/-- A form key is not empty. -/
theorem formKey_ne_nil (h : first ≠ "") (rest : List String) : formKey first rest ≠ [] := by
  intro hnil
  have hread := parseKey_formKey h rest
  rw [hnil] at hread
  exact h (List.cons.inj hread).1.symm

/-- The pair of a leaf is told by its key, and what the server makes of it is read as the leaf. -/
theorem exists_inlined {leaf : Leaf} (hpath : leaf.path = first :: rest)
    (hplain : ∀ key ∈ leaf.path, PlainKey key) :
    ∃ pair, pairChars? leaf = some pair ∧ pair ≠ [] ∧ '&' ∉ pair ∧
      (Form.pair pair).1 = bareKey first rest ∧
      inlined pair ≠ [] ∧ (∀ c ∈ inlined pair, isPairChar c = true) ∧
      parsePair (inlined pair) = leaf := by
  obtain ⟨path, text⟩ := leaf
  subst hpath
  have hfirst : first ≠ "" := (hplain first List.mem_cons_self).1
  have hpath : (⟨first :: rest, text⟩ : Leaf).path = first :: rest := rfl
  obtain ⟨pair, hpair, hne, hchars, -⟩ := Query.exists_pairChars? hpath hfirst
  have hamp : '&' ∉ pair := fun hmem => absurd (hchars _ hmem) (by decide)
  refine ⟨pair, hpair, hne, hamp, ?_⟩
  have hempty : (keyChars (first :: rest)).isEmpty = false :=
    List.isEmpty_eq_false_iff.2 (Query.keyChars_ne_nil hfirst rest)
  -- the first equals sign of the pair is the one behind its key
  have heqForm : '=' ∉ formKey first rest := fun hmem => (mem_formKey hmem).2 rfl
  cases text with
  | none =>
    simp only [pairChars?, hempty, Bool.false_eq_true, if_false, Option.some.injEq] at hpair
    subst hpair
    obtain ⟨hkey, hinlined⟩ := inlined_keyChars hplain
    rw [hinlined]
    refine ⟨hkey, formKey_ne_nil hfirst rest, fun c hc => (mem_formKey hc).1, ?_⟩
    rw [parsePair, cutAt_eq_none.2 heqForm, parseKey_formKey hfirst]
  | some text =>
    simp only [pairChars?, hempty, Bool.false_eq_true, if_false, Option.some.injEq] at hpair
    subst hpair
    obtain ⟨hkey, hinlined⟩ := inlined_append hplain (Percent.encode text.toList)
    rw [hinlined]
    refine ⟨hkey, by simp, fun c hc => ?_, ?_⟩
    · rw [List.mem_append, List.mem_cons] at hc
      rcases hc with hc | rfl | hc
      · exact (mem_formKey hc).1
      · rfl
      · rcases Percent.kept_of_mem_encode hc with h | rfl
        · simp [isPairChar, h]
        · rfl
    · rw [parsePair, cutAt_append heqForm]
      simp only [parseKey_formKey hfirst, Query.decode_encode]

end Inlined

/-- The name of a parameter is no key of a path that begins elsewhere. -/
theorem bareKey_ne {first name : String} (h : first ≠ name) (hopen : '[' ∉ name.toList)
    (rest : List String) : bareKey first rest ≠ name.toList := by
  intro heq
  cases rest with
  | nil =>
    rw [bareKey, List.map_nil, bracketChars, List.flatMap_nil, List.append_nil] at heq
    exact h (String.toList_inj.1 heq)
  | cons segment rest =>
    refine hopen (heq ▸ ?_)
    rw [bareKey, List.map_cons, bracketChars_cons]
    simp

end ListParams

end QueryFilter
