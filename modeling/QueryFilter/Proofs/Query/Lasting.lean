import QueryFilter.Proofs.Query.RoundTrip

/-!
# What a query string keeps

A value is whole if a query string leaves nothing of it out (`Json.Whole`).  What survives of a
value is the value with its scalars as texts if and only if the value is whole
(`survivor_eq_spelled_iff`).

What is read back of an object has at each path what survives of the value that was there
(`get?_survivingEntries`), and whatever the text is, what is read from it has well-formed keys
(`wellKeyed_deserialize`).
-/

namespace QueryFilter

/-! ### Values in a query string -/

/-- The value at a path of keys. -/
def Json.at? : List String → Json → Option Json
  | [], value => some value
  | key :: path, value => (Entries.get? value.entries key).bind (at? path)

mutual

/-- A value with its scalars as texts and its arrays as objects with indices as keys. -/
def Json.spelled : Json → Json
  | .array items => .object (spelledItems 0 items)
  | .object entries => .object (spelledEntries entries)
  | .null => .string Json.null.plainText
  | .bool b => .string (Json.bool b).plainText
  | .number n => .string n.text
  | .string s => .string s

/-- Spelled items below their indices, from an index on. -/
def spelledItems (index : Nat) : List Json → Object
  | [] => []
  | item :: items => (Decimal.natText index, item.spelled) :: spelledItems (index + 1) items

/-- Spelled values below their keys. -/
def spelledEntries : List (String × Json) → Object
  | [] => []
  | (key, value) :: rest => (key, value.spelled) :: spelledEntries rest

end

mutual

/-- A value holds no null, no empty array, and no entry that says that case does not matter. -/
def Json.Whole : Json → Prop
  | .null => False
  | .array items => items ≠ [] ∧ ItemsWhole items
  | .object entries => EntriesWhole entries
  | _ => True

/-- Each of some values is whole. -/
def ItemsWhole : List Json → Prop
  | [] => True
  | item :: items => item.Whole ∧ ItemsWhole items

/-- The values below some keys are whole, and none of them is left out. -/
def EntriesWhole : List (String × Json) → Prop
  | [] => True
  | (key, value) :: rest =>
    Query.Options.standard.omits key value = false ∧ value.Whole ∧ EntriesWhole rest

end

/-- All of a value is kept in a query string: it is whole, and its keys are well-formed. -/
def Json.Lasts (value : Json) : Prop :=
  value.WellKeyed ∧ value.Whole

/-- Spelling values keeps the keys. -/
theorem keys_spelledEntries (entries : Object) :
    Entries.keys (spelledEntries entries) = Entries.keys entries := by
  induction entries with
  | nil => rfl
  | cons entry entries ih =>
    obtain ⟨key, value⟩ := entry
    rw [spelledEntries, Entries.keys_cons, Entries.keys_cons, ih]

/-- Spelling values keeps their number. -/
theorem length_spelledEntries (entries : Object) :
    (spelledEntries entries).length = entries.length := by
  have hkeys := congrArg List.length (keys_spelledEntries entries)
  rwa [Entries.keys, Entries.keys, List.length_map, List.length_map] at hkeys

/-- Spelling items keeps their number. -/
theorem length_spelledItems (index : Nat) (items : List Json) :
    (spelledItems index items).length = items.length := by
  induction items generalizing index with
  | nil => rfl
  | cons item items ih => rw [spelledItems, List.length_cons, ih, List.length_cons]

mutual

/-- Keys that are well-formed in the spelled value are so in the value. -/
theorem Json.wellKeyed_of_spelled : ∀ {value : Json}, value.spelled.WellKeyed → value.WellKeyed
  | .null, _ => trivial
  | .bool _, _ => trivial
  | .number _, _ => trivial
  | .string _, _ => trivial
  | .array items, h => by
    rw [Json.spelled, Json.WellKeyed] at h
    rw [Json.WellKeyed]
    exact itemsWellKeyed_of_spelled h
  | .object entries, h => by
    rw [Json.spelled, Json.WellKeyed] at h
    rw [Json.WellKeyed]
    exact entriesWellKeyed_of_spelled h

/-- Items whose spelling has well-formed keys have such keys. -/
theorem itemsWellKeyed_of_spelled : ∀ {items : List Json} {index : Nat},
    EntriesWellKeyed (spelledItems index items) → ItemsWellKeyed items
  | [], _, _ => trivial
  | item :: items, index, h => by
    rw [spelledItems, EntriesWellKeyed] at h
    obtain ⟨-, -, hitem, hitems⟩ := h
    exact ⟨Json.wellKeyed_of_spelled hitem, itemsWellKeyed_of_spelled hitems⟩

/-- Entries whose spelling has well-formed keys have such keys. -/
theorem entriesWellKeyed_of_spelled : ∀ {entries : Object},
    EntriesWellKeyed (spelledEntries entries) → EntriesWellKeyed entries
  | [], _ => trivial
  | (key, value) :: entries, h => by
    rw [spelledEntries, EntriesWellKeyed, keys_spelledEntries] at h
    obtain ⟨hkey, hnew, hvalue, hentries⟩ := h
    exact ⟨hkey, hnew, Json.wellKeyed_of_spelled hvalue, entriesWellKeyed_of_spelled hentries⟩

end

/-- The entries of a value with well-formed keys have such keys. -/
theorem Json.WellKeyed.entries {value : Json} (h : value.WellKeyed) :
    EntriesWellKeyed value.entries := by
  cases value with
  | object entries =>
    rw [WellKeyed] at h
    exact h
  | _ => trivial

/-- A change that leaves well-formed keys below its key leaves well-formed keys. -/
theorem EntriesWellKeyed.alter {entries : Object} (h : EntriesWellKeyed entries) {key : String}
    (hkey : key ≠ "") {f : Option Json → Json}
    (hf : ∀ old, EntriesWellKeyed ((old.map Json.entries).getD []) → (f old).WellKeyed) :
    EntriesWellKeyed (Entries.alter entries key f) := by
  obtain ⟨hdistinct, hentries⟩ := entriesWellKeyed_iff.1 h
  have hdistinct' := hdistinct.alter key f
  refine entriesWellKeyed_iff.2 ⟨hdistinct', fun ⟨k, value⟩ hmem => ?_⟩
  have hget := hdistinct'.get?_of_mem hmem
  by_cases heq : k = key
  · subst heq
    rw [Entries.get?_alter_self] at hget
    refine ⟨hkey, Option.some.inj hget ▸ hf _ ?_⟩
    cases hold : Entries.get? entries k with
    | none => trivial
    | some old => exact (hentries _ (Entries.mem_of_get? hold)).2.entries
  · rw [Entries.get?_alter_of_ne heq] at hget
    exact hentries _ (Entries.mem_of_get? hget)

namespace Query

/-! ### Whole values survive -/

/-- No more entries survive than there are. -/
theorem length_survivingEntries_le (options : Options) (entries : Object) :
    (survivingEntries options entries).length ≤ entries.length := by
  induction entries with
  | nil => exact Nat.le_refl _
  | cons entry entries ih =>
    obtain ⟨key, value⟩ := entry
    rw [survivingEntries, List.length_append, List.length_cons]
    have hone : (if options.omits key value then ([] : Object)
        else ((survivor options value).map fun left => (key, left)).toList).length ≤ 1 := by
      split
      · exact Nat.zero_le 1
      · cases survivor options value <;> simp
    omega

/-- No more items survive than there are. -/
theorem length_survivingItems_le (options : Options) (index : Nat) (items : List Json) :
    (survivingItems options index items).length ≤ items.length := by
  induction items generalizing index with
  | nil => exact Nat.le_refl _
  | cons item items ih =>
    have hrest := ih (index + 1)
    rw [survivingItems, List.length_append, List.length_cons]
    have hone : ((survivor options item).map fun left =>
        (Decimal.natText index, left)).toList.length ≤ 1 := by
      cases survivor options item <;> simp
    omega

/-- What at most one entry and a short rest make up begins with the one entry. -/
theorem append_eq_cons_iff {α : Type} {first : List α} {rest others : List α} {x : α}
    (hfirst : first.length ≤ 1) (hrest : rest.length ≤ others.length) :
    first ++ rest = x :: others ↔ first = [x] ∧ rest = others := by
  constructor
  · intro h
    cases first with
    | nil =>
      have hlength := congrArg List.length h
      rw [List.nil_append, List.length_cons] at hlength
      omega
    | cons y more =>
      rw [List.length_cons] at hfirst
      obtain rfl : more = [] := List.length_eq_zero_iff.1 (by omega)
      obtain ⟨rfl, rfl⟩ := List.cons.inj h
      exact ⟨rfl, rfl⟩
  · rintro ⟨rfl, rfl⟩
    rfl

/-- A container with something in it is the one of its entries. -/
theorem container_eq_some_iff {entries left : Object} (h : left ≠ []) :
    container entries = some (.object left) ↔ entries = left := by
  rw [container_eq_some]
  exact and_iff_right h

mutual

/-- All of a value survives if and only if it is whole. -/
theorem survivor_eq_spelled_iff : ∀ {value : Json},
    survivor .standard value = some value.spelled ↔ value.Whole
  | .null => by
    rw [survivor, Json.Whole]
    simp
  | .bool b => by
    rw [survivor, Json.spelled]
    exact iff_of_true rfl trivial
  | .number n => by
    rw [survivor, Json.spelled]
    exact iff_of_true rfl trivial
  | .string s => by
    rw [survivor, Json.spelled]
    exact iff_of_true rfl trivial
  | .array [] => by
    rw [survivor, survivingItems, container, Json.Whole]
    simp
  | .array (item :: items) => by
    have hne : spelledItems 0 (item :: items) ≠ [] := by
      rw [spelledItems]
      exact List.cons_ne_nil _ _
    rw [survivor, Json.spelled, container_eq_some_iff hne, survivingItems_eq_spelled_iff,
      Json.Whole]
    simp
  | .object [] => by
    rw [survivor, Json.spelled, spelledEntries, Json.Whole, EntriesWhole]
    exact iff_of_true rfl trivial
  | .object (entry :: entries) => by
    have hne : spelledEntries (entry :: entries) ≠ [] := by
      rw [spelledEntries]
      exact List.cons_ne_nil _ _
    rw [survivor, Json.spelled, container_eq_some_iff hne, survivingEntries_eq_spelled_iff,
      Json.Whole]

/-- Items survive as they are spelled exactly if all of them are whole. -/
theorem survivingItems_eq_spelled_iff : ∀ {items : List Json} {index : Nat},
    survivingItems .standard index items = spelledItems index items ↔ ItemsWhole items
  | [], _ => by
    rw [survivingItems, spelledItems, ItemsWhole]
    exact iff_of_true rfl trivial
  | item :: items, index => by
    have hfirst : ((survivor .standard item).map fun left =>
        (Decimal.natText index, left)).toList.length ≤ 1 := by
      cases survivor .standard item <;> simp
    have hrest := length_survivingItems_le .standard (index + 1) items
    rw [← length_spelledItems (index + 1) items] at hrest
    rw [survivingItems, spelledItems, append_eq_cons_iff hfirst hrest,
      survivingItems_eq_spelled_iff, ItemsWhole, ← survivor_eq_spelled_iff]
    cases survivor .standard item <;> simp

/-- Entries survive as they are spelled exactly if all of them are whole. -/
theorem survivingEntries_eq_spelled_iff : ∀ {entries : Object},
    survivingEntries .standard entries = spelledEntries entries ↔ EntriesWhole entries
  | [] => by
    rw [survivingEntries, spelledEntries, EntriesWhole]
    exact iff_of_true rfl trivial
  | (key, value) :: entries => by
    have hfirst : (if Options.standard.omits key value then ([] : Object)
        else ((survivor .standard value).map fun left => (key, left)).toList).length ≤ 1 := by
      split
      · exact Nat.zero_le 1
      · cases survivor .standard value <;> simp
    have hrest := length_survivingEntries_le .standard entries
    rw [← length_spelledEntries entries] at hrest
    rw [survivingEntries, spelledEntries, append_eq_cons_iff hfirst hrest,
      survivingEntries_eq_spelled_iff, EntriesWhole, ← survivor_eq_spelled_iff]
    cases Options.standard.omits key value <;> cases survivor .standard value <;> simp

end

/-! ### Survivors at a path -/

/-- A key that survives was there. -/
theorem keys_survivingEntries_sub {options : Options} {entries : Object} {key : String}
    (h : key ∈ Entries.keys (survivingEntries options entries)) : key ∈ Entries.keys entries := by
  induction entries with
  | nil => exact absurd h List.not_mem_nil
  | cons entry entries ih =>
    obtain ⟨k, value⟩ := entry
    rw [survivingEntries, Entries.keys_append, List.mem_append] at h
    rcases h with h | h
    · split at h
      · exact absurd h List.not_mem_nil
      · rw [eq_of_mem_keys_kept h]
        exact List.mem_cons_self
    · exact List.mem_cons_of_mem _ (ih h)

/-- Below a key that is not left out stands what survives of its value. -/
theorem get?_survivingEntries {options : Options} {entries : Object}
    (hdistinct : Entries.Distinct entries) {key : String} {value : Json}
    (hmem : (key, value) ∈ entries) (homits : options.omits key value = false) :
    Entries.get? (survivingEntries options entries) key = survivor options value := by
  induction entries with
  | nil => exact absurd hmem List.not_mem_nil
  | cons entry entries ih =>
    obtain ⟨k, w⟩ := entry
    obtain ⟨hk, hrest⟩ := List.nodup_cons.1 hdistinct
    rw [survivingEntries]
    rcases List.mem_cons.1 hmem with heq | hmem
    · obtain ⟨rfl, rfl⟩ := Prod.mk.inj heq
      have hnone : Entries.get? (survivingEntries options entries) key = none :=
        Entries.get?_eq_none.2 fun h => hk (keys_survivingEntries_sub h)
      rw [homits, if_neg Bool.false_ne_true]
      cases survivor options value with
      | none => exact hnone
      | some left => exact Entries.get?_cons_self _ _ _
    · have hne : k ≠ key := by
        rintro rfl
        exact hk (Entries.mem_keys.2 ⟨value, hmem⟩)
      rw [← ih hrest hmem]
      split
      · rfl
      · cases survivor options w with
        | none => rfl
        | some left => exact (Entries.get?_cons _ _ _ _).trans (if_neg hne)

/-- What survives of the entries under other keys is what survives under other keys. -/
theorem without_survivingEntries (key : String) (options : Options) (entries : Object) :
    Entries.without key (survivingEntries options entries) =
      survivingEntries options (Entries.without key entries) := by
  induction entries with
  | nil => rfl
  | cons entry entries ih =>
    obtain ⟨k, value⟩ := entry
    rw [survivingEntries, Entries.without_append, ih]
    generalize hkept : (if options.omits k value then ([] : Object)
      else ((survivor options value).map fun left => (k, left)).toList) = kept
    -- whatever is kept of an entry has its key
    have hkey : ∀ entry ∈ kept, entry.1 = k := by
      intro entry hentry
      rw [← hkept] at hentry
      split at hentry
      · exact absurd hentry List.not_mem_nil
      · exact eq_of_mem_keys_kept (Entries.mem_keys_of_mem hentry)
    by_cases hk : k = key
    · subst hk
      have hgone : Entries.without k kept = [] :=
        List.filter_eq_nil_iff.2 fun entry hentry => by simp [hkey entry hentry]
      rw [hgone, Entries.without_cons_self, List.nil_append]
    · have hstays : Entries.without key kept = kept :=
        List.filter_eq_self.2 fun entry hentry => by simp [hkey entry hentry, hk]
      rw [hstays, Entries.without_cons_of_ne hk, survivingEntries, hkept]

/-- Leaves that were put under a key stand below this key and no other. -/
theorem filter_map_under {key k : String} (leaves : List Leaf) :
    (leaves.map (Leaf.under k)).filter (fun leaf => leaf.path.head? == some key) =
      if k = key then leaves.map (Leaf.under k) else [] := by
  split
  · rename_i heq
    refine List.filter_eq_self.2 fun leaf hleaf => ?_
    obtain ⟨below, -, rfl⟩ := List.mem_map.1 hleaf
    simp [Leaf.under, heq]
  · rename_i hne
    refine List.filter_eq_nil_iff.2 fun leaf hleaf => ?_
    obtain ⟨below, -, rfl⟩ := List.mem_map.1 hleaf
    simp [Leaf.under, hne]

/-- The leaves at a key that is not left out are those of its value. -/
theorem filter_entryLeaves {options : Options} {entries : Object}
    (hdistinct : Entries.Distinct entries) {key : String} {value : Json}
    (hmem : (key, value) ∈ entries) (homits : options.omits key value = false) :
    (entryLeaves options entries).filter (fun leaf => leaf.path.head? == some key) =
      (leaves options value).map (Leaf.under key) := by
  induction entries with
  | nil => exact absurd hmem List.not_mem_nil
  | cons entry entries ih =>
    obtain ⟨k, w⟩ := entry
    obtain ⟨hk, hrest⟩ := List.nodup_cons.1 hdistinct
    rw [entryLeaves, List.filter_append]
    rcases List.mem_cons.1 hmem with heq | hmem
    · obtain ⟨rfl, rfl⟩ := Prod.mk.inj heq
      have hnone : (entryLeaves options entries).filter
          (fun leaf => leaf.path.head? == some key) = [] := by
        refine List.filter_eq_nil_iff.2 fun leaf hleaf => ?_
        obtain ⟨first, hfirst, path, hpath⟩ := path_of_mem_entryLeaves hleaf
        have hne : first ≠ key := fun heq => hk (heq ▸ hfirst)
        simp [hpath, hne]
      rw [hnone, homits, if_neg Bool.false_ne_true, filter_map_under, if_pos rfl, List.append_nil]
    · have hne : k ≠ key := by
        rintro rfl
        exact hk (Entries.mem_keys.2 ⟨value, hmem⟩)
      rw [ih hrest hmem]
      split
      · rfl
      · rw [filter_map_under, if_neg hne, List.nil_append]

/-- Below a key a container has what its entries have. -/
theorem container_bind_at? (entries : Object) (key : String) (path : List String) :
    (container entries).bind (Json.at? (key :: path)) =
      Json.at? (key :: path) (.object entries) := by
  cases entries <;> rfl

/-! ### What is read -/

/-- No segment stands for the empty key. -/
theorem keyFor_ne_empty (object : Object) (segment : String) : keyFor object segment ≠ "" := by
  unfold keyFor
  split
  · exact Decimal.natText_ne_empty _
  · assumption

/-- Well-formed keys stay so when a text is placed on them. -/
theorem wellKeyed_placed (text : Option String) {old : Option Json}
    (h : EntriesWellKeyed ((old.map Json.entries).getD [])) : (placed text old).WellKeyed := by
  cases text with
  | some s => trivial
  | none =>
    rw [placed, Json.WellKeyed]
    exact h

/-- A leaf that is put into an object with well-formed keys leaves well-formed keys. -/
theorem wellKeyed_insertAt (text : Option String) : ∀ (path : List String) {object : Object},
    EntriesWellKeyed object → EntriesWellKeyed (insertAt text path object)
  | [], _, h => h
  | [last], object, h => by
    rw [insertAt]
    exact h.alter (keyFor_ne_empty _ _) fun _ => wellKeyed_placed text
  | segment :: next :: path, object, h => by
    rw [insertAt]
    refine h.alter (keyFor_ne_empty _ _) fun old hold => ?_
    rw [Json.WellKeyed]
    exact wellKeyed_insertAt text (next :: path) hold

/-- Leaves that are put into an object with well-formed keys leave well-formed keys. -/
theorem wellKeyed_insertAll (leaves : List Leaf) {object : Object} (h : EntriesWellKeyed object) :
    EntriesWellKeyed (insertAll object leaves) := by
  induction leaves generalizing object with
  | nil => exact h
  | cons leaf leaves ih => exact ih (wellKeyed_insertAt leaf.text leaf.path h)

/-- Whatever a query string is, what is read from it has well-formed keys. -/
theorem wellKeyed_deserialize (query : String) :
    EntriesWellKeyed ((deserialize query).getD []) := by
  rw [deserialize]
  cases splitPairs query with
  | none => trivial
  | some pairs => exact wellKeyed_insertAll _ trivial

/-- What stands at a path within well-formed keys has well-formed keys. -/
theorem wellKeyed_at? {path : List String} {value found : Json} (h : value.WellKeyed)
    (hfound : Json.at? path value = some found) : found.WellKeyed := by
  induction path generalizing value with
  | nil =>
    obtain rfl := Option.some.inj hfound
    exact h
  | cons key path ih =>
    obtain ⟨below, hget, hbelow⟩ := Option.bind_eq_some_iff.1 hfound
    exact ih ((entriesWellKeyed_iff.1 h.entries).2 _ (Entries.mem_of_get? hget)).2 hbelow

end Query

end QueryFilter
