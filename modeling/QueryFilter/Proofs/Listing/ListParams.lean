import QueryFilter.Proofs.Listing.Inlined

/-!
# The two shapes of a filter in a listing

A filter may be sent as one parameter `q`, which holds its query string with escapes, or as the
bracket pairs themselves.  Pairs of page and limit may stand anywhere between (`WithPaging`); they
are read apart from the rest (`view_foldl`).

If no key of the filter holds a bracket, then both shapes are read as the same filter
(`shapes_agree`).
-/

namespace QueryFilter.ListParams

open Text
open Query (Leaf pairChars? parsePair isPairChar)

/-! ### Page and limit apart from the rest -/

/-- Whether a pair says the page or the limit. -/
def isPaging (segment : List Char) : Bool :=
  (Form.pair segment).1 == "page".toList || (Form.pair segment).1 == "limit".toList

/-- A query string is another one with pairs of page and limit put anywhere into it. -/
def WithPaging (raw core : String) (paging : List (List Char)) : Prop :=
  (Form.segments raw.toList).filter isPaging = paging ∧
    (Form.segments raw.toList).filter (fun segment => !isPaging segment) =
      Form.segments core.toList

instance (raw core : String) (paging : List (List Char)) :
    Decidable (WithPaging raw core paging) :=
  inferInstanceAs (Decidable (_ ∧ _))

/-- What was read of the filter. -/
def Draft.content (draft : Draft) : Option (List Char) × List (List Char) :=
  (draft.q, draft.inline)

/-- The page and the limit that were read. -/
def Draft.paging (draft : Draft) : Option Nat × Option Nat :=
  (draft.page, draft.limit)

/-- A pair of page or limit leaves the filter as it is. -/
theorem content_read_of_paging (draft : Draft) {segment : List Char}
    (h : isPaging segment = true) : (draft.read segment).content = draft.content := by
  simp only [isPaging, Bool.or_eq_true, beq_iff_eq] at h
  unfold Draft.read
  rcases h with h | h
  · simp only [h, show ("page".toList = "q".toList) = False by decide, if_false, if_true]
    rfl
  · simp only [h, show ("limit".toList = "q".toList) = False by decide,
      show ("limit".toList = "page".toList) = False by decide, if_false, if_true]
    rfl

/-- Any other pair leaves page and limit as they are. -/
theorem paging_read_of_not_paging (draft : Draft) {segment : List Char}
    (h : isPaging segment = false) : (draft.read segment).paging = draft.paging := by
  simp only [isPaging, Bool.or_eq_false_iff, beq_eq_false_iff_ne] at h
  unfold Draft.read
  simp only [h.1, h.2, if_false]
  split
  · split <;> rfl
  · rfl

/-- What a parameter adds to the content depends on the content alone. -/
theorem content_read_congr {a b : Draft} (h : a.content = b.content) (segment : List Char) :
    (a.read segment).content = (b.read segment).content := by
  obtain ⟨hq, hinline⟩ := Prod.mk.inj h
  unfold Draft.read Draft.content
  simp only
  split
  · split <;> simp [hq, hinline]
  · split
    · simp [hq, hinline]
    · split <;> simp [hq, hinline]

/-- What a parameter does to the paging depends on the paging alone. -/
theorem paging_read_congr {a b : Draft} (h : a.paging = b.paging) (segment : List Char) :
    (a.read segment).paging = (b.read segment).paging := by
  obtain ⟨hpage, hlimit⟩ := Prod.mk.inj h
  unfold Draft.read Draft.paging
  simp only
  split
  · split <;> simp [hpage, hlimit]
  · split
    · simp [hlimit]
    · split <;> simp [hpage, hlimit]

/-- What some pairs leave as it is may be read without them. -/
theorem view_foldl {β : Type} (view : Draft → β) (counts : List Char → Bool)
    (hskip : ∀ draft segment, counts segment = false →
      view (Draft.read draft segment) = view draft)
    (hcongr : ∀ a b segment, view a = view b →
      view (Draft.read a segment) = view (Draft.read b segment))
    (segments : List (List Char)) {a b : Draft} (h : view a = view b) :
    view (segments.foldl Draft.read a) = view ((segments.filter counts).foldl Draft.read b) := by
  induction segments generalizing a b with
  | nil => exact h
  | cons segment segments ih =>
    by_cases hcounts : counts segment = true
    · rw [List.filter_cons_of_pos hcounts]
      exact ih (hcongr a b segment h)
    · rw [List.filter_cons_of_neg hcounts]
      exact ih ((hskip a segment (Bool.eq_false_iff.2 hcounts)).trans h)

/-- What is read of a query string. -/
def readAll (segments : List (List Char)) : Draft :=
  segments.foldl Draft.read ⟨none, none, none, []⟩

/-- The query string of a filter that was read. -/
def joined (content : Option (List Char) × List (List Char)) : Option String :=
  let parts := content.1.toList ++ content.2
  if parts.isEmpty then none else some (joinWith "&" (parts.map String.ofList))

/-- Parameters are read segment by segment, and their content is joined in the end. -/
theorem parse_eq (raw : String) :
    parse raw = ⟨joined (readAll (Form.segments raw.toList)).content,
      (readAll (Form.segments raw.toList)).paging.1,
      (readAll (Form.segments raw.toList)).paging.2⟩ := rfl

/-- The filter of a query string is read without its pairs of page and limit. -/
theorem parse_q_of_withPaging {raw core : String} {paging : List (List Char)}
    (h : WithPaging raw core paging) :
    (parse raw).q = joined (readAll (Form.segments core.toList)).content := by
  have hview := view_foldl Draft.content (fun segment => !isPaging segment)
    (fun draft segment hseg => content_read_of_paging draft (by simpa using hseg))
    (fun _ _ segment hab => content_read_congr hab segment) (Form.segments raw.toList)
    (a := ⟨none, none, none, []⟩) rfl
  rw [parse_eq, readAll, hview, h.2, readAll]

/-- Page and limit of a query string are read from their pairs alone. -/
theorem parse_paging_of_withPaging {raw core : String} {paging : List (List Char)}
    (h : WithPaging raw core paging) :
    ((parse raw).page, (parse raw).limit) = (readAll paging).paging := by
  have hview := view_foldl Draft.paging isPaging
    (fun draft segment hseg => paging_read_of_not_paging draft hseg)
    (fun _ _ segment hab => paging_read_congr hab segment) (Form.segments raw.toList)
    (a := ⟨none, none, none, []⟩) rfl
  rw [parse_eq, readAll, hview, h.1, readAll]

/-! ### The two shapes -/

/-- The names of the parameters beside bracket pairs. -/
def names : List String :=
  ["q", "page", "limit"]

/-- The pairs that are not parameters are all put together. -/
theorem foldl_read_inline {segments : List (List Char)}
    (h : ∀ segment ∈ segments, ∀ name ∈ names, (Form.pair segment).1 ≠ name.toList)
    (draft : Draft) : segments.foldl Draft.read draft =
      { draft with inline := draft.inline ++ segments.map inlined } := by
  induction segments generalizing draft with
  | nil => simp
  | cons segment segments ih =>
    have hnames := h segment List.mem_cons_self
    have hone : draft.read segment =
        { draft with inline := draft.inline ++ [inlined segment] } := by
      unfold Draft.read
      simp only [hnames "q" (by decide), hnames "page" (by decide), hnames "limit" (by decide),
        if_false]
      rfl
    rw [List.foldl_cons, hone, ih fun s hs => h s (List.mem_cons_of_mem _ hs)]
    simp

/-- The query string of a filter as one parameter. -/
def asParameter (q : String) : String :=
  "q=" ++ String.ofList (Percent.encode q.toList)

/-- A query string as a parameter is one segment. -/
theorem segments_asParameter (q : String) :
    Form.segments (asParameter q).toList = ['q' :: '=' :: Percent.encode q.toList] := by
  have hamp : '&' ∉ 'q' :: '=' :: Percent.encode q.toList := by
    have hencoded : '&' ∉ Percent.encode q.toList :=
      Percent.not_mem_encode (by decide) (by decide) _
    simp [hencoded]
  have hchars : (asParameter q).toList = 'q' :: '=' :: Percent.encode q.toList := by
    simp [asParameter]
  rw [hchars, Form.segments, piecesAt_of_not_mem hamp]
  rfl

/-- The parameter `q` is read as the query string that was put into it. -/
theorem pair_asParameter (q : String) :
    Form.pair ('q' :: '=' :: Percent.encode q.toList) = ("q".toList, q.toList) := by
  have hkey : '=' ∉ ['q'] := by decide
  have hpair := Form.pair_append hkey (Percent.encode q.toList)
  rw [Percent.decodeForm_encode] at hpair
  exact hpair

/-- As one parameter a query string is read as it is, unless it is empty. -/
theorem joined_asParameter (q : String) :
    joined (readAll (Form.segments (asParameter q).toList)).content =
      if q = "" then none else some q := by
  rw [segments_asParameter, readAll, List.foldl_cons, List.foldl_nil, Draft.read,
    pair_asParameter]
  simp only [if_true, List.isEmpty_iff]
  by_cases hq : q = ""
  · subst hq
    rfl
  · have hne : q.toList ≠ [] := fun hnil => hq (String.toList_inj.1 hnil)
    rw [if_neg hne, if_neg hq]
    simp [joined, Draft.content, joinWith]

/-- The pairs of an object with plain keys, and what the server makes of them. -/
theorem pairs_of_plain {entries : Object} (hplain : EntriesPlainKeys entries)
    (hnames : ∀ key ∈ Entries.keys entries, key ∉ names) :
    ∀ more : List Leaf, (∀ leaf ∈ more, leaf ∈ Query.entryLeaves .standard entries) →
      (∀ pair ∈ more.filterMap pairChars?, pair ≠ [] ∧ '&' ∉ pair) ∧
      (∀ pair ∈ more.filterMap pairChars?, ∀ name ∈ names, (Form.pair pair).1 ≠ name.toList) ∧
      (∀ part ∈ (more.filterMap pairChars?).map inlined,
        part ≠ [] ∧ ∀ c ∈ part, isPairChar c = true) ∧
      ((more.filterMap pairChars?).map inlined).map parsePair = more := by
  have hbracket : ∀ name ∈ names, '[' ∉ name.toList := by decide
  intro more hmore
  -- over some of the leaves, so that the keys of all of them stay at hand
  induction more with
  | nil => simp
  | cons leaf more ih =>
    obtain ⟨hsegments, hkeys, hparts, hread⟩ := ih fun l hl => hmore l (List.mem_cons_of_mem _ hl)
    have hleaf := hmore leaf List.mem_cons_self
    obtain ⟨first, hfirst, rest, hpath⟩ := Query.path_of_mem_entryLeaves hleaf
    obtain ⟨pair, hpair, hne, hamp, hkey, hinlined, hchars, hparse⟩ :=
      exists_inlined hpath (Query.plainKey_of_mem_entryLeaves _ hplain hleaf)
    rw [List.filterMap_cons_some hpair]
    refine ⟨List.forall_mem_cons.2 ⟨⟨hne, hamp⟩, hsegments⟩,
      List.forall_mem_cons.2 ⟨fun name hname => ?_, hkeys⟩, ?_, ?_⟩
    · rw [hkey]
      refine bareKey_ne ?_ (hbracket name hname) rest
      rintro rfl
      exact hnames first hfirst hname
    · rw [List.map_cons]
      exact List.forall_mem_cons.2 ⟨⟨hinlined, hchars⟩, hparts⟩
    · rw [List.map_cons, List.map_cons, hparse, hread]

/-- As bracket pairs a filter is read as from its query string. -/
theorem deserialize_joined_inline {entries : Object} (hplain : EntriesPlainKeys entries)
    (hnames : ∀ key ∈ Entries.keys entries, key ∉ names) :
    let b := Query.serialize .standard "" (.object entries)
    (joined (readAll (Form.segments b.toList)).content).bind Query.deserialize =
        Query.deserialize b ∧
      (b = "" → joined (readAll (Form.segments b.toList)).content = none) := by
  intro b
  obtain ⟨hsegments, hkeys, hparts, hread⟩ :=
    pairs_of_plain hplain hnames (Query.entryLeaves .standard entries) fun _ hleaf => hleaf
  have hb : Form.segments b.toList =
      (Query.entryLeaves .standard entries).filterMap pairChars? := by
    change Form.segments (Query.serialize .standard "" (.object entries)).toList = _
    rw [Query.serialize, Query.pairs_object, Form.segments_joinWith hsegments]
  have hall : (readAll (Form.segments b.toList)).content =
      (none, ((Query.entryLeaves .standard entries).filterMap pairChars?).map inlined) := by
    rw [hb, readAll, foldl_read_inline hkeys, List.nil_append]
    rfl
  rw [hall]
  generalize hmade : ((Query.entryLeaves .standard entries).filterMap pairChars?).map inlined = made
    at hparts hread
  -- an empty query string has no pairs, so that nothing is joined
  have hempty : b = "" → made = [] := by
    intro hnil
    rw [hnil] at hb
    rw [← hmade, ← hb]
    rfl
  refine ⟨?_, fun hnil => by rw [hempty hnil]; rfl⟩
  by_cases hnil : made = []
  · subst hnil
    rw [List.map_nil] at hread
    have hnone : b = "" := by
      change Query.serialize .standard "" (.object entries) = ""
      rw [Query.serialize, Query.pairs_object, ← hread]
      rfl
    rw [hnone]
    rfl
  · have hleaves : Query.entryLeaves .standard entries ≠ [] := by
      rw [← hread]
      exact fun h => hnil (List.map_eq_nil_iff.1 h)
    obtain ⟨parts, hsplit, hparse⟩ :=
      Query.splitPairs_serialize (fun key hkey => (hplain.plainKey key hkey).1) hleaves
    have hjoined : joined (none, made) = some (joinWith "&" (made.map String.ofList)) := by
      simp [joined, hnil]
    rw [hjoined, Option.bind_some, Query.deserialize, Query.deserialize,
      Query.splitPairs_joinWith hnil hparts, hsplit, Option.map_some, Option.map_some, hread,
      hparse]

/-- Agreement: a filter whose keys hold no brackets, and none of whose keys is a parameter, is read
alike as bracket pairs and as one parameter: as its query string itself, and not at all if that is
empty.  Pairs of page and limit anywhere between change nothing about it, and they are read alike in
both shapes. -/
theorem shapes_agree {entries : Object} (hplain : EntriesPlainKeys entries)
    (hnames : ∀ key ∈ Entries.keys entries, key ∉ names) :
    let b := Query.serialize .standard "" (.object entries)
    (WithPaging b b [] ∧ WithPaging (asParameter b) (asParameter b) []) ∧
    ∀ paging inline given, WithPaging inline b paging →
      WithPaging given (asParameter b) paging →
      (parse inline).q.bind Query.deserialize = Query.deserialize b ∧
      (parse given).q.bind Query.deserialize = Query.deserialize b ∧
      (b = "" → (parse inline).q = none ∧ (parse given).q = none) ∧
      (parse inline).page = (parse given).page ∧ (parse inline).limit = (parse given).limit := by
  intro b
  -- without paging among its segments a text is its own content
  have hself : ∀ {raw : String}, (∀ segment ∈ Form.segments raw.toList, isPaging segment = false) →
      WithPaging raw raw [] := by
    intro raw h
    refine ⟨List.filter_eq_nil_iff.2 fun segment hsegment => ?_,
      List.filter_eq_self.2 fun segment hsegment => ?_⟩
    · rw [h segment hsegment]
      exact Bool.false_ne_true
    · rw [h segment hsegment]
      rfl
  refine ⟨⟨hself fun segment hsegment => ?_, hself fun segment hsegment => ?_⟩, ?_⟩
  · obtain ⟨hsegments, hkeys, -, -⟩ :=
      pairs_of_plain hplain hnames (Query.entryLeaves .standard entries) fun _ hleaf => hleaf
    change segment ∈ Form.segments (Query.serialize .standard "" (.object entries)).toList
      at hsegment
    rw [Query.serialize, Query.pairs_object, Form.segments_joinWith hsegments] at hsegment
    have hkey := hkeys segment hsegment
    simp only [isPaging, Bool.or_eq_false_iff, beq_eq_false_iff_ne]
    exact ⟨hkey "page" (by decide), hkey "limit" (by decide)⟩
  · rw [segments_asParameter, List.mem_singleton] at hsegment
    rw [hsegment, isPaging, pair_asParameter]
    rfl
  · intro paging inline given hinline hgiven
    obtain ⟨hread, hnone⟩ := deserialize_joined_inline hplain hnames
    have hpaging :=
      (parse_paging_of_withPaging hinline).trans (parse_paging_of_withPaging hgiven).symm
    rw [parse_q_of_withPaging hinline, parse_q_of_withPaging hgiven, joined_asParameter]
    refine ⟨hread, ?_, fun hnil => ⟨hnone hnil, if_pos hnil⟩, Prod.mk.inj hpaging⟩
    split
    · rename_i hnil
      rw [hnil]
      rfl
    · rfl

/-! ### An example -/

/-- A filter whose keys and texts are written differently in the two alphabets of escapes. -/
def sampleFilter : Object :=
  [("a b*", .object [("~", .string "1+")]), ("é", .object [])]

/-- The sample filter with page and limit among its pairs, in both shapes. -/
theorem sampleFilter_agrees :
    EntriesPlainKeys sampleFilter ∧ (∀ key ∈ Entries.keys sampleFilter, key ∉ names) ∧
    (parse "limit=5&a%20b%2A[~]=1%2B&page=2&%C3%A9").q.bind
        Query.deserialize =
      Query.deserialize (Query.serialize .standard "" (.object sampleFilter)) := by
  have hplain : EntriesPlainKeys sampleFilter := by
    simp [sampleFilter, EntriesPlainKeys, Json.PlainKeys, PlainKey]
  have hnames : ∀ key ∈ Entries.keys sampleFilter, key ∉ names := by decide
  refine ⟨hplain, hnames, ?_⟩
  have hagree := (shapes_agree hplain hnames).2 ["limit=5".toList, "page=2".toList]
    "limit=5&a%20b%2A[~]=1%2B&page=2&%C3%A9"
    ("limit=5&page=2&" ++ asParameter (Query.serialize .standard "" (.object sampleFilter)))
  exact (hagree (by decide) (by decide)).1

end QueryFilter.ListParams
