import QueryFilter.Proofs.Query.Bracket
import QueryFilter.Proofs.Query.Insert

/-!
# Pairs that append

An empty segment of a path stands for the number of entries of the object that encloses it.  An
append is vacant if the object does not have this number as a key yet (`AppendOf.Vacant`), and only
then does it add an entry.

The appends of a query string keep everything, themselves included, if and only if all of them are
vacant (`appends_kept_iff`): each adds its entry at the end and leaves every other place as it is
(`at?_insertAt_append`), and later pairs that do not name the entry leave it there
(`at?_insertAll`).  Names never get in the way of an append, only numbers that are written out do
(`vacant_of_names`).
-/

namespace QueryFilter.Query

/-! ### Places within an object -/

/-- The entries at a place; there are none where a text or nothing stands. -/
def entriesAt (object : Object) (place : List String) : Object :=
  below (Json.at? place (.object object))

/-- At the empty place stands the object itself. -/
@[simp] theorem entriesAt_nil (object : Object) : entriesAt object [] = object := rfl

/-- What stands at a longer place stands below its first key. -/
theorem at?_cons_of_ne_nil {place : List String} (h : place ≠ []) (key : String)
    (object : Object) : Json.at? (key :: place) (.object object) =
      Json.at? place (.object (below (Entries.get? object key))) := by
  rw [Json.at?_object_cons]
  cases Entries.get? object key with
  | none =>
    cases place with
    | nil => exact absurd rfl h
    | cons next place => rfl
  | some value => exact (Json.at?_object_entries h value).symm

/-- The entries at a longer place are those at its rest below the first key. -/
theorem entriesAt_cons (object : Object) (key : String) (place : List String) :
    entriesAt object (key :: place) = entriesAt (below (Entries.get? object key)) place := by
  cases place with
  | nil =>
    rw [entriesAt, Json.at?_object_cons]
    cases Entries.get? object key <;> rfl
  | cons next place => rw [entriesAt, entriesAt, at?_cons_of_ne_nil (List.cons_ne_nil _ _)]

/-- The value at a place is found among the entries at the place above. -/
theorem at?_append_singleton (object : Object) (place : List String) (key : String) :
    Json.at? (place ++ [key]) (.object object) = Entries.get? (entriesAt object place) key := by
  induction place generalizing object with
  | nil =>
    rw [List.nil_append, Json.at?_object_cons, entriesAt_nil]
    cases Entries.get? object key <;> rfl
  | cons first place ih =>
    rw [List.cons_append, at?_cons_of_ne_nil (by simp), ih, entriesAt_cons]

/-- Below a key that is rewritten stands what the function makes of the value before. -/
theorem at?_alter_self (object : Object) (key : String) (f : Option Json → Json)
    (place : List String) : Json.at? (key :: place) (.object (Entries.alter object key f)) =
      Json.at? place (f (Entries.get? object key)) := by
  rw [Json.at?_object_cons, Entries.get?_alter_self, Option.bind_some]

/-- Rewriting one key leaves what stands below all others. -/
theorem at?_alter_of_ne {key other : String} (h : other ≠ key) (object : Object)
    (f : Option Json → Json) (place : List String) :
    Json.at? (other :: place) (.object (Entries.alter object key f)) =
      Json.at? (other :: place) (.object object) := by
  rw [Json.at?_object_cons, Entries.get?_alter_of_ne h, Json.at?_object_cons]

/-- The key at which a place begins where something stands. -/
theorem mem_keys_of_at? {object : Object} {key : String} {place : List String} {value : Json}
    (h : Json.at? (key :: place) (.object object) = some value) : key ∈ Entries.keys object := by
  obtain ⟨found, hfound, -⟩ := Option.bind_eq_some_iff.1 h
  exact Entries.mem_keys_of_get? hfound

/-! ### Where a path leads -/

/-- The keys along which a path leads in an object. -/
def settled : List String → Object → List String
  | [], _ => []
  | segment :: rest, object =>
    keyFor object segment :: settled rest (below (Entries.get? object (keyFor object segment)))

/-- A leaf changes the entries where a part of its path leads as the rest of the path says. -/
theorem entriesAt_insertAt (text : Option String) (front : List String) (segment : String)
    (rest : List String) (object : Object) :
    entriesAt (insertAt text (front ++ segment :: rest) object) (settled front object) =
      Entries.alter (entriesAt object (settled front object))
        (keyFor (entriesAt object (settled front object)) segment) (written text rest) := by
  induction front generalizing object with
  | nil => rw [settled, entriesAt_nil, entriesAt_nil, List.nil_append, insertAt_cons]
  | cons first front ih =>
    rw [List.cons_append, insertAt_cons, settled, entriesAt_cons, entriesAt_cons,
      Entries.get?_alter_self, written_of_ne_nil (by simp), below_some]
    exact ih _

/-! ### Empty segments that are vacant -/

/-- At each empty segment of a path the number of entries is no key yet. -/
def Free (path : List String) (object : Object) : Prop :=
  ∀ front rest, path = front ++ "" :: rest →
    Decimal.natText (entriesAt object (settled front object)).length ∉
      Entries.keys (entriesAt object (settled front object))

/-- The key that an empty first segment stands for is a new one. -/
theorem Free.head {path : List String} {object : Object} (h : Free ("" :: path) object) :
    keyFor object "" ∉ Entries.keys object :=
  h [] path rfl

/-- Below its first key the rest of a free path is free. -/
theorem Free.tail {segment : String} {path : List String} {object : Object}
    (h : Free (segment :: path) object) :
    Free path (below (Entries.get? object (keyFor object segment))) := by
  intro front rest hpath
  have hfree := h (segment :: front) rest (by rw [hpath, List.cons_append])
  rwa [settled, entriesAt_cons] at hfree

/-! ### What a leaf leaves as it is -/

/-- A leaf names a place if it is to stand there or within, or if its text is to stand above. -/
def Leaf.Names (leaf : Leaf) (place : List String) : Prop :=
  place <+: leaf.path ∨ (leaf.path <+: place ∧ leaf.text ≠ none)

/-- A leaf that names a place names it below a further key of both. -/
theorem Leaf.Names.cons {path place : List String} {text : Option String}
    (h : Leaf.Names ⟨path, text⟩ place) (key : String) :
    Leaf.Names ⟨key :: path, text⟩ (key :: place) :=
  h.imp (List.prefix_cons_inj key).2 (And.imp_left (List.prefix_cons_inj key).2)

/-- A leaf whose appends are vacant leaves what stands at a place that it does not name. -/
theorem at?_insertAt {text : Option String} {path place : List String} {object : Object}
    {value : Json} (hfree : Free path object) (hnames : ¬ Leaf.Names ⟨path, text⟩ place)
    (hat : Json.at? place (.object object) = some value) :
    Json.at? place (.object (insertAt text path object)) = some value := by
  induction path generalizing place object with
  | nil => rwa [insertAt]
  | cons segment path ih =>
    cases place with
    | nil => exact absurd (.inl List.nil_prefix) hnames
    | cons key place =>
      rw [insertAt_cons]
      by_cases hkey : key = keyFor object segment
      · -- the key is there already, hence no empty segment stands for it
        have hsegment : segment ≠ "" := by
          rintro rfl
          exact hfree.head (hkey ▸ mem_keys_of_at? hat)
        obtain rfl : key = segment := hkey.trans (keyFor_of_ne hsegment object)
        have hbelow : ¬ Leaf.Names ⟨path, text⟩ place := fun h => hnames (h.cons key)
        have hplace : place ≠ [] := by
          rintro rfl
          exact hbelow (.inl List.nil_prefix)
        rw [at?_cons_of_ne_nil hplace] at hat
        rw [← hkey, at?_alter_self]
        cases path with
        | nil =>
          have htext : text = none := by
            by_contra hsome
            exact hbelow (.inr ⟨List.nil_prefix, hsome⟩)
          rw [htext]
          exact hat
        | cons next path =>
          have htail := hfree.tail
          rw [← hkey] at htail
          exact ih htail hbelow hat
      · rwa [at?_alter_of_ne hkey]

/-- A vacant append leaves what stands at every place but those on the way to it. -/
theorem at?_insertAt_append {text : Option String} {front rest place : List String}
    {object : Object} {value : Json}
    (hvacant : Decimal.natText (entriesAt object (settled front object)).length ∉
      Entries.keys (entriesAt object (settled front object)))
    (hplace : ¬ place <+: settled front object)
    (hat : Json.at? place (.object object) = some value) :
    Json.at? place (.object (insertAt text (front ++ "" :: rest) object)) = some value := by
  induction front generalizing place object with
  | nil =>
    cases place with
    | nil => exact absurd List.nil_prefix hplace
    | cons key place =>
      have hne : key ≠ keyFor object "" := by
        rintro rfl
        exact hvacant (mem_keys_of_at? hat)
      rwa [List.nil_append, insertAt_cons, at?_alter_of_ne hne]
  | cons segment front ih =>
    cases place with
    | nil => exact absurd List.nil_prefix hplace
    | cons key place =>
      rw [List.cons_append, insertAt_cons]
      rw [settled] at hplace
      by_cases hkey : key = keyFor object segment
      · rw [← hkey, List.prefix_cons_inj] at hplace
        have hne : place ≠ [] := by
          rintro rfl
          exact hplace List.nil_prefix
        rw [settled, ← hkey, entriesAt_cons] at hvacant
        rw [at?_cons_of_ne_nil hne] at hat
        rw [← hkey, at?_alter_self, written_of_ne_nil (by simp)]
        exact ih hvacant hplace hat
      · rwa [at?_alter_of_ne hkey]

/-- Leaves whose appends are vacant, one after the other, leave what stands at a place that none of
them names. -/
theorem at?_insertAll {leaves : List Leaf} {place : List String} {object : Object} {value : Json}
    (hfree : ∀ before leaf after, leaves = before ++ leaf :: after →
      Free leaf.path (insertAll object before))
    (hnames : ∀ leaf ∈ leaves, ¬ leaf.Names place)
    (hat : Json.at? place (.object object) = some value) :
    Json.at? place (.object (insertAll object leaves)) = some value := by
  induction leaves generalizing object with
  | nil => exact hat
  | cons leaf leaves ih =>
    have hfirst := hfree [] leaf leaves rfl
    refine ih (fun before other after h => ?_)
      (fun other h => hnames other (List.mem_cons_of_mem _ h))
      (at?_insertAt hfirst (hnames leaf List.mem_cons_self) hat)
    exact hfree (leaf :: before) other after (by rw [h, List.cons_append])

/-! ### The appends of a query string -/

/-- An empty segment in the path of one of the pairs of a query string. -/
structure AppendOf (query : String) where
  /-- The pairs in front. -/
  before : List Leaf
  leaf : Leaf
  /-- The pairs that follow. -/
  after : List Leaf
  /-- The segments in front of the empty one. -/
  front : List String
  rest : List String
  pairs_eq : pairLeaves query = before ++ leaf :: after
  path_eq : leaf.path = front ++ "" :: rest

namespace AppendOf

variable {query : String} (a : AppendOf query)

/-- What the pairs in front leave. -/
def object : Object :=
  insertAll [] a.before

/-- The place of the object in which the empty segment stands. -/
def enclosingPlace : List String :=
  settled a.front a.object

/-- The entries among which the empty segment stands. -/
def enclosing : Object :=
  entriesAt a.object a.enclosingPlace

/-- The key that the empty segment stands for. -/
def index : String :=
  Decimal.natText a.enclosing.length

/-- The place that the empty segment leads to. -/
def place : List String :=
  a.enclosingPlace ++ [a.index]

/-- What the pair is to leave there. -/
def value : Json :=
  written a.leaf.text a.rest none

/-- The key is a new one. -/
def Vacant : Prop :=
  a.index ∉ Entries.keys a.enclosing

/-- No pair that follows names the place. -/
def Unnamed : Prop :=
  ∀ leaf ∈ a.after, ¬ leaf.Names a.place

/-- What a pair that appends is to do. -/
structure Kept : Prop where
  /-- It adds an entry at the end. -/
  adds : entriesAt (insert a.object a.leaf) a.enclosingPlace = a.enclosing ++ [(a.index, a.value)]
  /-- What stands elsewhere than on the way to the entry stays. -/
  keeps : ∀ place value, ¬ place <+: a.enclosingPlace →
    Json.at? place (.object a.object) = some value →
      Json.at? place (.object (insert a.object a.leaf)) = some value
  /-- The entry is there in the end. -/
  lasts : a.Unnamed → ∃ result, deserialize query = some result ∧
    Json.at? a.place (.object result) = some a.value
  /-- Later pairs append at other places. -/
  apart : a.Unnamed → ∀ b : AppendOf query, a.before.length < b.before.length → a.place ≠ b.place

/-- Putting in the leaf rewrites the key that its empty segment stands for. -/
theorem entriesAt_insert :
    entriesAt (insert a.object a.leaf) a.enclosingPlace =
      Entries.alter a.enclosing a.index (written a.leaf.text a.rest) := by
  rw [insert, a.path_eq, enclosingPlace, entriesAt_insertAt, keyFor_empty]
  rfl

/-- An append that adds an entry is vacant. -/
theorem Kept.vacant {a : AppendOf query} (h : a.Kept) : a.Vacant := by
  intro hmem
  have hkeys := congrArg Entries.keys (a.entriesAt_insert.symm.trans h.adds)
  rw [Entries.keys_alter, if_pos hmem, Entries.keys_append] at hkeys
  simpa using congrArg List.length hkeys

variable {a}

/-- At a new key the value is added behind the other entries. -/
theorem Vacant.adds (h : a.Vacant) :
    entriesAt (insert a.object a.leaf) a.enclosingPlace = a.enclosing ++ [(a.index, a.value)] := by
  rw [a.entriesAt_insert, Entries.alter_of_not_mem h]
  rfl

/-- At a new key nothing else is lost: what stands elsewhere stays. -/
theorem Vacant.keeps (h : a.Vacant) {place : List String} {value : Json}
    (hplace : ¬ place <+: a.enclosingPlace)
    (hat : Json.at? place (.object a.object) = some value) :
    Json.at? place (.object (insert a.object a.leaf)) = some value := by
  rw [insert, a.path_eq]
  exact at?_insertAt_append h hplace hat

/-- The entry stands at its place as soon as the pair was put there. -/
theorem Vacant.at?_place (h : a.Vacant) :
    Json.at? a.place (.object (insert a.object a.leaf)) = some a.value := by
  rw [place, at?_append_singleton, a.entriesAt_insert, Entries.get?_alter_self,
    Entries.get?_eq_none.2 h]
  rfl

/-- Pairs that follow a vacant append and do not name its place leave the entry there. -/
theorem Vacant.at?_insertAll (h : a.Vacant) (hall : ∀ b : AppendOf query, b.Vacant)
    {next more : List Leaf} (hafter : a.after = next ++ more) (hunnamed : a.Unnamed) :
    Json.at? a.place (.object (insertAll a.object (a.leaf :: next))) = some a.value := by
  rw [insertAll_cons]
  refine Query.at?_insertAll ?_ ?_ h.at?_place
  · intro before leaf after hsplit front rest hpath
    have hpairs : pairLeaves query =
        (a.before ++ a.leaf :: before) ++ leaf :: (after ++ more) := by
      rw [a.pairs_eq, hafter, hsplit]
      simp
    have hvacant := hall ⟨_, leaf, _, front, rest, hpairs, hpath⟩
    simp only [Vacant, index, enclosing, enclosingPlace, object, insertAll_append,
      insertAll_cons] at hvacant
    exact hvacant
  · intro leaf hleaf
    exact hunnamed leaf (by rw [hafter]; exact List.mem_append_left _ hleaf)

/-- A query string is read as the leaf of the pair, put in after those in front and before those
behind. -/
theorem deserialize_eq (a : AppendOf query) :
    deserialize query = some (insertAll a.object (a.leaf :: a.after)) := by
  have hpairs := a.pairs_eq
  rw [pairLeaves] at hpairs
  rw [deserialize]
  cases hsplit : splitPairs query with
  | none =>
    rw [hsplit] at hpairs
    exact absurd hpairs (by simp)
  | some pairs =>
    rw [hsplit, Option.getD_some] at hpairs
    rw [Option.map_some, hpairs, insertAll_append]
    rfl

/-- Of two appends by different pairs the later one follows the earlier one. -/
theorem exists_between (a b : AppendOf query) (h : a.before.length < b.before.length) :
    ∃ next more, a.after = next ++ more ∧ b.before = a.before ++ a.leaf :: next := by
  have hpairs := a.pairs_eq.symm.trans b.pairs_eq
  rcases List.append_eq_append_iff.1 hpairs with ⟨next, hbefore, hafter⟩ | ⟨next, hbefore, -⟩
  · cases next with
    | nil =>
      rw [hbefore, List.append_nil] at h
      exact absurd h (Nat.lt_irrefl _)
    | cons leaf next =>
      obtain ⟨rfl, hmore⟩ := List.cons.inj hafter
      exact ⟨next, b.leaf :: b.after, hmore, hbefore⟩
  · rw [hbefore, List.length_append] at h
    omega

/-- If every pair that appends finds a new key, each does what it is to do. -/
theorem Vacant.kept (h : a.Vacant) (hall : ∀ b : AppendOf query, b.Vacant) : a.Kept where
  adds := h.adds
  keeps _ _ := h.keeps
  lasts hunnamed :=
    ⟨_, a.deserialize_eq, h.at?_insertAll hall (List.append_nil _).symm hunnamed⟩
  apart hunnamed b hlt heq := by
    obtain ⟨next, more, hafter, hbefore⟩ := a.exists_between b hlt
    have hat := h.at?_insertAll hall hafter hunnamed
    rw [object, ← insertAll_append, ← hbefore] at hat
    rw [heq, place, at?_append_singleton] at hat
    exact hall b (Entries.mem_keys_of_get? hat)

end AppendOf

/-- The appends of a query string keep everything if and only if none of them meets an object that
has the number of its entries as a key already. -/
theorem appends_kept_iff (query : String) :
    (∀ a : AppendOf query, a.Kept) ↔ ∀ a : AppendOf query, a.index ∉ Entries.keys a.enclosing :=
  ⟨fun h a => (h a).vacant, fun h a => AppendOf.Vacant.kept (h a) h⟩

/-- A pair that writes out the number of entries an object is going to have, and one that appends
to this object. -/
def takenIndexQuery : String :=
  "tags[in][1]=a&tags[in][]=b"

/-- The append takes the place of the entry that is there, so that one of two values is left. -/
theorem takenIndex_not_kept :
    deserialize takenIndexQuery =
        some [("tags", .object [("in", .object [("1", .string "b")])])] ∧
      ∃ a : AppendOf takenIndexQuery, ¬ a.Kept := by
  have hleaves : (splitPairs takenIndexQuery).map (List.map parsePair) =
      some [⟨["tags", "in", "1"], some "a"⟩, ⟨["tags", "in", ""], some "b"⟩] := by decide +kernel
  obtain ⟨pairs, hsplit, hparsed⟩ := Option.map_eq_some_iff.1 hleaves
  constructor
  · rw [deserialize, hsplit, Option.map_some, hparsed]
    rfl
  · have hpairs : pairLeaves takenIndexQuery =
        [⟨["tags", "in", "1"], some "a"⟩] ++ ⟨["tags", "in", ""], some "b"⟩ :: [] := by
      rw [pairLeaves, hsplit, Option.getD_some, hparsed]
      rfl
    refine ⟨⟨_, _, _, ["tags", "in"], [], hpairs, rfl⟩, fun h => ?_⟩
    have hindex : Decimal.natText 1 = "1" := by decide +kernel
    have htaken : Decimal.natText 1 ∈ ["1"] := List.mem_singleton.2 hindex
    exact h.vacant htaken

/-! ### Names in front of an append -/

/-- Wherever a number is a key, more entries than that are there. -/
def Numbered (object : Object) : Prop :=
  ∀ place n, Decimal.natText n ∈ Entries.keys (entriesAt object place) →
    n < (entriesAt object place).length

/-- Among no entries no number is a key. -/
theorem numbered_nil : Numbered [] := by
  intro place n hmem
  cases place <;> exact absurd hmem List.not_mem_nil

/-- Below each key of a numbered object stand numbered entries. -/
theorem Numbered.below {object : Object} (h : Numbered object) (key : String) :
    Numbered (below (Entries.get? object key)) := by
  intro place
  rw [← entriesAt_cons]
  exact h (key :: place)

/-- The number of entries is no key. -/
theorem Numbered.not_mem {object : Object} (h : Numbered object) (place : List String) :
    Decimal.natText (entriesAt object place).length ∉ Entries.keys (entriesAt object place) :=
  fun hmem => absurd (h place _ hmem) (Nat.lt_irrefl _)

/-- A change at a name, or at the number of entries, leaves more entries than any number among the
keys. -/
theorem Numbered.alter {object : Object} (h : Numbered object) {segment : String}
    (hsegment : ∀ n, segment ≠ Decimal.natText n) {f : Option Json → Json}
    (hf : Numbered (f (Entries.get? object (keyFor object segment))).entries) :
    Numbered (Entries.alter object (keyFor object segment) f) := by
  intro place n hmem
  cases place with
  | nil =>
    rw [entriesAt_nil] at hmem ⊢
    have hlength : (Entries.alter object (keyFor object segment) f).length =
        (if keyFor object segment ∈ Entries.keys object then Entries.keys object
          else Entries.keys object ++ [keyFor object segment]).length := by
      rw [← Entries.keys_alter, Entries.keys, List.length_map]
    have hold : (Entries.keys object).length = object.length := List.length_map _
    rcases Entries.mem_keys_alter.1 hmem with hmem | heq
    · have hlt : n < object.length := h [] n hmem
      rw [hlength]
      split
      · rwa [hold]
      · rw [List.length_append, hold]
        exact Nat.lt_add_right _ hlt
    · -- the key is new: it is the number of entries, or it is written out and no number
      by_cases hempty : segment = ""
      · subst hempty
        have hnew : keyFor object "" ∉ Entries.keys object := h.not_mem []
        rw [keyFor_empty] at heq
        rw [hlength, if_neg hnew, List.length_append, hold, Decimal.natText_injective heq]
        exact Nat.lt_succ_self _
      · rw [keyFor_of_ne hempty] at heq
        exact absurd heq.symm (hsegment n)
  | cons key place =>
    rw [entriesAt_cons] at hmem ⊢
    by_cases hkey : key = keyFor object segment
    · rw [hkey, Entries.get?_alter_self] at hmem ⊢
      exact hf place n hmem
    · rw [Entries.get?_alter_of_ne hkey] at hmem ⊢
      exact h.below key place n hmem

/-- A path without written numbers keeps an object numbered. -/
theorem numbered_insertAt {text : Option String} {path : List String} {object : Object}
    (hpath : ∀ segment ∈ path, ∀ n, segment ≠ Decimal.natText n) (h : Numbered object) :
    Numbered (insertAt text path object) := by
  induction path generalizing object with
  | nil => rwa [insertAt]
  | cons segment path ih =>
    rw [insertAt_cons]
    refine h.alter (hpath segment List.mem_cons_self) ?_
    cases path with
    | nil =>
      cases text with
      | some s => exact numbered_nil
      | none => exact h.below _
    | cons next path => exact ih (fun s hs => hpath s (List.mem_cons_of_mem _ hs)) (h.below _)

/-- Paths without written numbers keep an object numbered. -/
theorem numbered_insertAll {leaves : List Leaf} {object : Object}
    (hpaths : ∀ leaf ∈ leaves, ∀ segment ∈ leaf.path, ∀ n, segment ≠ Decimal.natText n)
    (h : Numbered object) : Numbered (insertAll object leaves) := by
  induction leaves generalizing object with
  | nil => exact h
  | cons leaf leaves ih =>
    exact ih (fun l hl => hpaths l (List.mem_cons_of_mem _ hl))
      (numbered_insertAt (hpaths leaf List.mem_cons_self) h)

/-- Without a number that is written out all appends are vacant, whatever names, texts above and
other appends come before them. -/
theorem vacant_of_names {query : String}
    (h : ∀ leaf ∈ pairLeaves query, ∀ segment ∈ leaf.path, ∀ n, segment ≠ Decimal.natText n)
    (a : AppendOf query) : a.Vacant := by
  refine (numbered_insertAll (fun leaf hleaf => h leaf ?_) numbered_nil).not_mem _
  rw [a.pairs_eq]
  exact List.mem_append_left _ hleaf

end QueryFilter.Query
