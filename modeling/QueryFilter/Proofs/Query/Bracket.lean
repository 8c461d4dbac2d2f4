import QueryFilter.Proofs.Query.Survivor
import QueryFilter.Proofs.Text.Percent
import QueryFilter.Proofs.Text.Split

/-!
# Reading what was written in bracket notation

A path comes back from its key (`parseKey_keyChars`), a leaf from its pair
(`exists_pairChars?`), and what survives of an object from its query string
(`deserialize_serialize`).  Percent-encoding keeps every character with a meaning out of segments
and values, so that the cuts at `&`, `=` and brackets fall where they were put.
-/

namespace QueryFilter.Query

open Text

/-! ### Keys -/

/-- Segments in brackets. -/
def bracketChars (segments : List (List Char)) : List Char :=
  segments.flatMap fun segment => '[' :: segment ++ [']']

/-- Each segment stands in brackets of its own. -/
theorem bracketChars_cons (segment : List Char) (segments : List (List Char)) :
    bracketChars (segment :: segments) =
      '[' :: (segment ++ ']' :: bracketChars segments) := by
  simp [bracketChars]

/-- A key is written as its first segment, and the others in brackets. -/
theorem keyChars_cons {first : String} (h : first ≠ "") (rest : List String) :
    keyChars (first :: rest) = Percent.encode first.toList ++
      bracketChars (rest.map fun segment => Percent.encode segment.toList) := by
  have hdrop : (first :: rest).dropWhile (· == "") = first :: rest :=
    List.dropWhile_cons_of_neg (by simpa using h)
  rw [keyChars, hdrop, bracketChars, List.flatMap_map]

/-- A text with characters is encoded to some. -/
theorem encode_ne_nil {s : String} (h : s ≠ "") : Percent.encode s.toList ≠ [] := by
  intro hnil
  have hchars := Percent.encode_eq_nil.1 hnil
  exact h (String.toList_inj.1 hchars)

/-- A key whose first segment has characters has some. -/
theorem keyChars_ne_nil {first : String} (h : first ≠ "") (rest : List String) :
    keyChars (first :: rest) ≠ [] := by
  rw [keyChars_cons h]
  exact fun hnil => encode_ne_nil h (List.append_eq_nil_iff.1 hnil).1

/-- A segment ends at the first closing bracket. -/
theorem insideBracket?_append {segment : List Char} (h : ']' ∉ segment) (cs : List Char) :
    insideBracket? (segment ++ ']' :: cs) = (bracketed? cs).map (segment :: ·) := by
  induction segment with
  | nil => rw [List.nil_append, insideBracket?]
  | cons c segment ih =>
    rw [List.mem_cons, not_or] at h
    rw [List.cons_append, insideBracket?, ih h.2]
    · cases bracketed? cs <;> rfl
    · exact fun heq => h.1 heq.symm

/-- Segments without closing brackets are read back from their brackets. -/
theorem bracketed?_bracketChars {segments : List (List Char)}
    (h : ∀ segment ∈ segments, ']' ∉ segment) :
    bracketed? (bracketChars segments) = some segments := by
  induction segments with
  | nil => rfl
  | cons segment segments ih =>
    have hrest := ih fun s hs => h s (List.mem_cons_of_mem _ hs)
    rw [bracketChars_cons, bracketed?, insideBracket?_append (h segment List.mem_cons_self), hrest]
    rfl

/-- A key is read segment by segment, however its segments are encoded. -/
theorem parseKey_append {first : List Char} (hne : first ≠ []) (hopen : '[' ∉ first)
    {rest : List (List Char)} (hclose : ∀ segment ∈ rest, ']' ∉ segment) :
    parseKey (first ++ bracketChars rest) = decode first :: rest.map decode := by
  have hnot : ∀ c ∈ first, decide (c ≠ '[') = true :=
    fun c hc => decide_eq_true fun heq => hopen (heq ▸ hc)
  cases rest with
  | nil =>
    have hrest : first.dropWhile (· ≠ '[') = [] := List.dropWhile_eq_nil_iff.2 hnot
    simp only [bracketChars, List.flatMap_nil, List.append_nil, parseKey, hrest, List.isEmpty_nil,
      Bool.or_true, if_true, List.map_nil]
  | cons segment rest =>
    have htake : (first ++ bracketChars (segment :: rest)).takeWhile (· ≠ '[') = first := by
      rw [List.takeWhile_append_of_pos hnot, bracketChars_cons,
        List.takeWhile_cons_of_neg (by decide), List.append_nil]
    have hdrop : (first ++ bracketChars (segment :: rest)).dropWhile (· ≠ '[') =
        bracketChars (segment :: rest) := by
      rw [List.dropWhile_append_of_pos hnot, bracketChars_cons,
        List.dropWhile_cons_of_neg (by decide)]
    have hlast : (bracketChars (segment :: rest)).isEmpty = false := by
      rw [bracketChars_cons]
      rfl
    simp only [parseKey, htake, hdrop, List.isEmpty_eq_false_iff.2 hne, hlast, Bool.or_self,
      Bool.false_eq_true, if_false, bracketed?_bracketChars hclose]

/-- Reading a key is the inverse of writing a path. -/
theorem parseKey_keyChars {first : String} (h : first ≠ "") (rest : List String) :
    parseKey (keyChars (first :: rest)) = first :: rest := by
  have hopen : '[' ∉ Percent.encode first.toList :=
    Percent.not_mem_encode (by decide) (by decide) _
  have hclose : ∀ segment ∈ rest.map fun segment => Percent.encode segment.toList,
      ']' ∉ segment := by
    intro segment hsegment
    obtain ⟨s, -, rfl⟩ := List.mem_map.1 hsegment
    exact Percent.not_mem_encode (by decide) (by decide) _
  rw [keyChars_cons h, parseKey_append (encode_ne_nil h) hopen hclose, decode_encode, List.map_map]
  exact congrArg (first :: ·) ((List.map_congr_left fun s _ => decode_encode s).trans
    (List.map_id' rest))

/-- What stands in a key is a bracket, unreserved, or a percent sign. -/
theorem kept_of_mem_keyChars {path : List String} {c : Char} (h : c ∈ keyChars path) :
    c = '[' ∨ c = ']' ∨ Percent.isUnreserved c = true ∨ c = '%' := by
  unfold keyChars at h
  split at h
  · exact absurd h List.not_mem_nil
  · rcases List.mem_append.1 h with h | h
    · exact .inr (.inr (Percent.kept_of_mem_encode h))
    · obtain ⟨segment, _, hc⟩ := List.mem_flatMap.1 h
      rw [List.mem_append, List.mem_cons, List.mem_singleton] at hc
      rcases hc with (rfl | hc) | rfl
      · exact .inl rfl
      · exact .inr (.inr (Percent.kept_of_mem_encode hc))
      · exact .inr (.inl rfl)

/-! ### Pairs -/

/-- The characters of pairs: brackets, the equality sign, and what texts are encoded with in either
alphabet. -/
def isPairChar (c : Char) : Bool :=
  c == '[' || c == ']' || Percent.isUnreserved c || c == '%' || c == '=' || c == '*' || c == '+'

/-- A key is made of characters of pairs. -/
theorem isPairChar_of_mem_keyChars {path : List String} {c : Char} (h : c ∈ keyChars path) :
    isPairChar c = true := by
  rcases kept_of_mem_keyChars h with rfl | rfl | h | rfl
  · rfl
  · rfl
  · simp [isPairChar, h]
  · rfl

/-- No blank stands in pairs. -/
theorem not_isBlank_of_isPairChar {c : Char} (h : isPairChar c = true) : isBlank c = false := by
  simp only [isPairChar, Bool.or_eq_true, beq_iff_eq] at h
  rcases h with (((((rfl | rfl) | h) | rfl) | rfl) | rfl) | rfl
  · decide
  · decide
  · exact Percent.not_isBlank_of_isUnreserved h
  all_goals decide

/-- A leaf whose first key is not empty has a pair, which is read as the leaf. -/
theorem exists_pairChars? {leaf : Leaf} {first : String} {rest : List String}
    (hpath : leaf.path = first :: rest) (hfirst : first ≠ "") :
    ∃ pair, pairChars? leaf = some pair ∧ pair ≠ [] ∧ (∀ c ∈ pair, isPairChar c = true) ∧
      parsePair pair = leaf := by
  obtain ⟨path, text⟩ := leaf
  subst hpath
  have hne := keyChars_ne_nil hfirst rest
  have hempty : (keyChars (first :: rest)).isEmpty = false := List.isEmpty_eq_false_iff.2 hne
  have heq : '=' ∉ keyChars (first :: rest) := by
    intro hmem
    rcases kept_of_mem_keyChars hmem with h | h | h | h <;> exact absurd h (by decide)
  cases text with
  | none =>
    refine ⟨keyChars (first :: rest), by simp [pairChars?, hempty], hne,
      fun c => isPairChar_of_mem_keyChars, ?_⟩
    rw [parsePair, cutAt_eq_none.2 heq, parseKey_keyChars hfirst]
  | some text =>
    refine ⟨keyChars (first :: rest) ++ '=' :: Percent.encode text.toList,
      by simp [pairChars?, hempty], by simp, ?_, ?_⟩
    · intro c hc
      rw [List.mem_append, List.mem_cons] at hc
      rcases hc with hc | rfl | hc
      · exact isPairChar_of_mem_keyChars hc
      · rfl
      · rcases Percent.kept_of_mem_encode hc with h | rfl
        · simp [isPairChar, h]
        · rfl
    · rw [parsePair, cutAt_append heq]
      simp only [parseKey_keyChars hfirst, decode_encode]

/-- The pairs of leaves whose first keys are not empty are read as these leaves. -/
theorem filterMap_pairChars? {more : List Leaf}
    (hpath : ∀ leaf ∈ more, ∃ first rest, leaf.path = first :: rest ∧ first ≠ "") :
    (more.filterMap pairChars?).map parsePair = more ∧
      ∀ pair ∈ more.filterMap pairChars?, pair ≠ [] ∧ ∀ c ∈ pair, isPairChar c = true := by
  induction more with
  | nil => exact ⟨rfl, fun _ h => absurd h List.not_mem_nil⟩
  | cons leaf more ih =>
    obtain ⟨first, rest, hleaf, hfirst⟩ := hpath leaf List.mem_cons_self
    obtain ⟨pair, hpair, hne, hchars, hparse⟩ := exists_pairChars? hleaf hfirst
    obtain ⟨hread, hall⟩ := ih fun l hl => hpath l (List.mem_cons_of_mem _ hl)
    rw [List.filterMap_cons_some hpair]
    refine ⟨by rw [List.map_cons, hparse, hread], ?_⟩
    intro p hp
    rcases List.mem_cons.1 hp with rfl | hp
    · exact ⟨hne, hchars⟩
    · exact hall p hp

/-! ### Query strings -/

/-- Joined pairs are split into the same pairs. -/
theorem splitPairs_joinWith {parts : List (List Char)} (hne : parts ≠ [])
    (h : ∀ part ∈ parts, part ≠ [] ∧ ∀ c ∈ part, isPairChar c = true) :
    splitPairs (joinWith "&" (parts.map String.ofList)) = some parts := by
  have hsep : ∀ part ∈ parts, '&' ∉ part := by
    intro part hpart hmem
    exact absurd ((h part hpart).2 _ hmem) (by decide)
  have hpieces := piecesAt_joinWith hne hsep
  change piecesAt '&' (joinWith "&" (parts.map String.ofList)).toList = parts at hpieces
  have hchars : ∀ c ∈ (joinWith "&" (parts.map String.ofList)).toList,
      c = '&' ∨ isPairChar c = true := by
    intro c hc
    rcases mem_joinWith hc with hc | ⟨s, hs, hc⟩
    · exact .inl (by simpa using hc)
    · obtain ⟨part, hpart, rfl⟩ := List.mem_map.1 hs
      rw [String.toList_ofList] at hc
      exact .inr ((h part hpart).2 c hc)
  -- nothing is trimmed, and no question mark is in front
  have htrim : trimChars (joinWith "&" (parts.map String.ofList)).toList =
      (joinWith "&" (parts.map String.ofList)).toList := by
    refine trimChars_of_no_blank fun c hc => ?_
    rcases hchars c hc with rfl | hc
    · decide
    · exact not_isBlank_of_isPairChar hc
  have hfilter : parts.filter (fun part => !part.isEmpty) = parts := by
    refine List.filter_eq_self.2 fun part hpart => ?_
    rw [List.isEmpty_eq_false_iff.2 (h part hpart).1]
    rfl
  unfold splitPairs
  generalize (joinWith "&" (parts.map String.ofList)).toList = cs at hpieces hchars htrim ⊢
  cases cs with
  | nil =>
    rw [piecesAt] at hpieces
    subst hpieces
    exact absurd rfl (h [] List.mem_cons_self).1
  | cons c cs =>
    have hquestion : c ≠ '?' := by
      rintro rfl
      rcases hchars '?' List.mem_cons_self with h | h <;> exact absurd h (by decide)
    simp only [htrim]
    split
    · rename_i heq
      exact absurd (List.cons.inj heq).1 hquestion
    · rw [List.isEmpty_cons, if_neg (by decide), hpieces, hfilter]

/-- The pairs of an object are those of its leaves. -/
theorem pairs_object (options : Options) (entries : Object) :
    pairs options "" (.object entries) = (entryLeaves options entries).filterMap pairChars? := by
  have hroot : (fun leaf : Leaf => pairChars? (leaf.under "")) = pairChars? := by
    funext leaf
    rw [pairChars?, pairChars?, Leaf.under, keyChars_empty_cons]
  cases entries with
  | nil => rfl
  | cons entry entries => rw [pairs, hroot, leaves]

/-- The pairs of a query string. -/
def pairLeaves (query : String) : List Leaf :=
  ((splitPairs query).getD []).map parsePair

/-- The query string of an object is split into the pairs of its leaves. -/
theorem splitPairs_serialize {options : Options} {entries : Object}
    (h : ∀ key ∈ Entries.keys entries, key ≠ "") (hne : entryLeaves options entries ≠ []) :
    ∃ parts, splitPairs (serialize options "" (.object entries)) = some parts ∧
      parts.map parsePair = entryLeaves options entries := by
  have hfirst : ∀ leaf ∈ entryLeaves options entries,
      ∃ first rest, leaf.path = first :: rest ∧ first ≠ "" := by
    intro leaf hleaf
    obtain ⟨key, hkey, path, hpath⟩ := path_of_mem_entryLeaves hleaf
    exact ⟨key, path, hpath, h key hkey⟩
  obtain ⟨hread, hall⟩ := filterMap_pairChars? hfirst
  have hparts : (entryLeaves options entries).filterMap pairChars? ≠ [] := by
    intro hnil
    rw [hnil] at hread
    exact hne hread.symm
  refine ⟨_, ?_, hread⟩
  rw [serialize, pairs_object, splitPairs_joinWith hparts hall]

/-- Well-formed keys are not empty. -/
theorem keys_ne_empty {entries : Object} (h : EntriesWellKeyed entries) :
    ∀ key ∈ Entries.keys entries, key ≠ "" := by
  intro key hkey
  obtain ⟨value, hmem⟩ := Entries.mem_keys.1 hkey
  exact ((entriesWellKeyed_iff.1 h).2 _ hmem).1

/-- Reading the query string of an object gives what survives of it. -/
theorem deserialize_serialize {options : Options} {entries : Object}
    (h : EntriesWellKeyed entries) (hne : survivingEntries options entries ≠ []) :
    deserialize (serialize options "" (.object entries)) =
      some (survivingEntries options entries) := by
  have hleaves : entryLeaves options entries ≠ [] := fun hnil => hne ((entryLeaves_eq_nil h).1 hnil)
  obtain ⟨parts, hsplit, hread⟩ := splitPairs_serialize (keys_ne_empty h) hleaves
  rw [deserialize, hsplit, Option.map_some, hread, insertAll_nil_entryLeaves h]

/-- The pairs of the query string of an object are its leaves. -/
theorem pairLeaves_serialize {options : Options} {entries : Object} (h : EntriesWellKeyed entries)
    (hne : survivingEntries options entries ≠ []) :
    pairLeaves (serialize options "" (.object entries)) = entryLeaves options entries := by
  have hleaves : entryLeaves options entries ≠ [] := fun hnil => hne ((entryLeaves_eq_nil h).1 hnil)
  obtain ⟨parts, hsplit, hread⟩ := splitPairs_serialize (keys_ne_empty h) hleaves
  rw [pairLeaves, hsplit, Option.getD_some, hread]

/-- An object of which nothing survives has the empty query string. -/
theorem serialize_of_no_survivor {options : Options} {entries : Object}
    (h : EntriesWellKeyed entries) (hnone : survivingEntries options entries = []) :
    serialize options "" (.object entries) = "" := by
  rw [serialize, pairs_object, (entryLeaves_eq_nil h).2 hnone]
  rfl

/-- Nothing is read from the empty query string. -/
@[simp] theorem deserialize_empty : deserialize "" = none := rfl

/-- What is left of an object after it was written as a query string and read back. -/
def reread (entries : Object) : Object :=
  (deserialize (serialize .standard "" (.object entries))).getD []

/-- What is left of an object is what survives of it. -/
theorem reread_eq {entries : Object} (h : EntriesWellKeyed entries) :
    reread entries = survivingEntries .standard entries := by
  rw [reread]
  by_cases hne : survivingEntries .standard entries = []
  · rw [serialize_of_no_survivor h hne, deserialize_empty, hne]
    rfl
  · rw [deserialize_serialize h hne]
    rfl

end QueryFilter.Query
