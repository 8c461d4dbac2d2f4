import QueryFilter.Proofs.Decimal.Digits
import QueryFilter.Proofs.Entries
import QueryFilter.Query.Leaf

/-!
# What survives a query string

A query string keeps of a value its leaves as texts.  `survivor` says what is left of a value: every
scalar is its text, every array an object with indices as keys, and what has no leaf is gone.

The main result is `insertAll_entryLeaves`: the leaves of an object, put together again, are what
survives of it.  It holds for objects without empty keys and without a key that occurs twice, at any
level (`EntriesWellKeyed`).
-/

namespace QueryFilter

/-! ### Well-formed keys -/

mutual

/-- No object within a value has an empty key, or one key twice. -/
def Json.WellKeyed : Json → Prop
  | .array items => ItemsWellKeyed items
  | .object entries => EntriesWellKeyed entries
  | _ => True

/-- The keys within some values are well-formed. -/
def ItemsWellKeyed : List Json → Prop
  | [] => True
  | item :: items => item.WellKeyed ∧ ItemsWellKeyed items

/-- The keys of an object and those below them are well-formed. -/
def EntriesWellKeyed : List (String × Json) → Prop
  | [] => True
  | (key, value) :: rest =>
    key ≠ "" ∧ key ∉ Entries.keys rest ∧ value.WellKeyed ∧ EntriesWellKeyed rest

end

/-- Well-formed keys occur once. -/
theorem EntriesWellKeyed.distinct {entries : Object} (h : EntriesWellKeyed entries) :
    Entries.Distinct entries := by
  induction entries with
  | nil => exact Entries.distinct_nil
  | cons entry entries ih =>
    obtain ⟨key, value⟩ := entry
    rw [EntriesWellKeyed] at h
    exact List.nodup_cons.2 ⟨h.2.1, ih h.2.2.2⟩

/-- Well-formed keys are distinct, not empty, and above well-formed keys. -/
theorem entriesWellKeyed_iff {entries : Object} : EntriesWellKeyed entries ↔
    Entries.Distinct entries ∧ ∀ entry ∈ entries, entry.1 ≠ "" ∧ entry.2.WellKeyed := by
  induction entries with
  | nil => simp [EntriesWellKeyed]
  | cons entry entries ih =>
    obtain ⟨key, value⟩ := entry
    rw [EntriesWellKeyed, ih, List.forall_mem_cons]
    constructor
    · rintro ⟨hkey, hnew, hvalue, hdistinct, hrest⟩
      exact ⟨List.nodup_cons.2 ⟨hnew, hdistinct⟩, ⟨hkey, hvalue⟩, hrest⟩
    · rintro ⟨hdistinct, ⟨hkey, hvalue⟩, hrest⟩
      obtain ⟨hnew, hrest'⟩ := List.nodup_cons.1 hdistinct
      exact ⟨hkey, hnew, hvalue, hrest', hrest⟩

/-- Items with well-formed keys are so together. -/
theorem itemsWellKeyed_of_forall {items : List Json} (h : ∀ item ∈ items, item.WellKeyed) :
    ItemsWellKeyed items := by
  induction items with
  | nil => trivial
  | cons item items ih =>
    exact ⟨h item List.mem_cons_self, ih fun i hi => h i (List.mem_cons_of_mem _ hi)⟩

namespace Query

/-! ### Survivors -/

/-- An object that was not empty is gone when nothing is left of it. -/
def container : Object → Option Json
  | [] => none
  | entry :: entries => some (.object (entry :: entries))

mutual

/-- What survives of a value. -/
def survivor (options : Options) : Json → Option Json
  | .null => none
  | .object [] => some (.object [])
  | .object (entry :: entries) => container (survivingEntries options (entry :: entries))
  | .array items => container (survivingItems options 0 items)
  | .bool b => some (.string (Json.bool b).plainText)
  | .number n => some (.string n.text)
  | .string s => some (.string s)

/-- What survives below some keys. -/
def survivingEntries (options : Options) : List (String × Json) → Object
  | [] => []
  | (key, value) :: rest =>
    (if options.omits key value then []
      else ((survivor options value).map fun left => (key, left)).toList) ++
      survivingEntries options rest

/-- What survives of some items, below their indices from an index on. -/
def survivingItems (options : Options) (index : Nat) : List Json → Object
  | [] => []
  | item :: items =>
    ((survivor options item).map fun left => (Decimal.natText index, left)).toList ++
      survivingItems options (index + 1) items

end

/-- A container with something in it survives. -/
theorem container_of_ne_nil {entries : Object} (h : entries ≠ []) :
    container entries = some (.object entries) := by
  cases entries with
  | nil => exact absurd rfl h
  | cons entry entries => rfl

/-- An entry that is not left out keeps what survives of its value. -/
theorem survivingEntries_cons_kept {options : Options} {key : String} {value left : Json}
    (homits : options.omits key value = false) (hleft : survivor options value = some left)
    (rest : Object) : survivingEntries options ((key, value) :: rest) =
      (key, left) :: survivingEntries options rest := by
  rw [survivingEntries, homits, if_neg (by decide), hleft]
  rfl

/-- What is left out does not survive. -/
theorem survivingEntries_cons_omitted {options : Options} {key : String} {value : Json}
    (homits : options.omits key value = true) (rest : Object) :
    survivingEntries options ((key, value) :: rest) = survivingEntries options rest := by
  rw [survivingEntries, homits, if_pos rfl]
  rfl

/-- Only texts are left out, and only under the key of the mode. -/
theorem omits_eq_false {key : String} (h : key ≠ modeKey) (options : Options) (value : Json) :
    options.omits key value = false := by
  have hkey : (key == modeKey) = false := beq_false_of_ne h
  simp [Options.omits, hkey]

/-- No object is left out. -/
theorem omits_object (options : Options) (key : String) (entries : Object) :
    options.omits key (.object entries) = false := by
  simp [Options.omits]

/-- An object of which something survives stays an object. -/
theorem survivor_object {options : Options} {entries : Object}
    (h : survivingEntries options entries ≠ []) :
    survivor options (.object entries) = some (.object (survivingEntries options entries)) := by
  cases entries with
  | nil => exact absurd rfl h
  | cons entry entries => exact container_of_ne_nil h

/-- An object that keeps its keys stays an object, also if it has none. -/
theorem survivor_object_of_keys {options : Options} {entries : Object}
    (h : Entries.keys (survivingEntries options entries) = Entries.keys entries) :
    survivor options (.object entries) = some (.object (survivingEntries options entries)) := by
  cases entries with
  | nil => rfl
  | cons entry entries =>
    refine survivor_object fun hnil => ?_
    rw [hnil] at h
    exact List.cons_ne_nil _ _ h.symm

/-- What is kept below a key has this key. -/
theorem eq_of_mem_keys_kept {key k : String} {left : Option Json}
    (h : k ∈ Entries.keys (left.map fun value => (key, value)).toList) : k = key := by
  obtain ⟨value, hvalue⟩ := Entries.mem_keys.1 h
  obtain ⟨_, _, heq⟩ := Option.map_eq_some_iff.1 (Option.mem_toList.1 hvalue)
  exact (Prod.mk.inj heq).1.symm

/-! ### Leaves below a key -/

/-- Leaves with a path, all put below one key, make one change at this key. -/
theorem insertAll_under {key : String} (hkey : key ≠ "") {more : List Leaf} (hne : more ≠ [])
    (hpath : ∀ leaf ∈ more, leaf.path ≠ []) (object : Object) :
    insertAll object (more.map (Leaf.under key)) =
      Entries.alter object key fun old =>
        .object (insertAll ((old.map Json.entries).getD []) more) := by
  have hone : ∀ (o : Object) (leaf : Leaf), leaf.path ≠ [] → insert o (leaf.under key) =
      Entries.alter o key fun old => .object (insert ((old.map Json.entries).getD []) leaf) := by
    intro o leaf hleaf
    obtain ⟨path, text⟩ := leaf
    cases path with
    | nil => exact absurd rfl hleaf
    | cons first path => simp only [insert, Leaf.under, insertAt, keyFor, hkey, if_false]
  induction more generalizing object with
  | nil => exact absurd rfl hne
  | cons leaf more ih =>
    have hleaf := hone object leaf (hpath leaf List.mem_cons_self)
    rw [List.map_cons, insertAll_cons, hleaf]
    cases more with
    | nil => rfl
    | cons next more =>
      rw [ih (List.cons_ne_nil _ _) fun l hl => hpath l (List.mem_cons_of_mem _ hl),
        Entries.alter_alter]
      rfl

/-- A leaf that was put under a key has a path. -/
theorem path_ne_nil_of_mem_under {key : String} {more : List Leaf} {leaf : Leaf}
    (h : leaf ∈ more.map (Leaf.under key)) : leaf.path ≠ [] := by
  obtain ⟨below, _, rfl⟩ := List.mem_map.1 h
  exact List.cons_ne_nil _ _

/-- The path of a leaf of an object begins with a key of the object. -/
theorem path_of_mem_entryLeaves {options : Options} {entries : Object} {leaf : Leaf}
    (h : leaf ∈ entryLeaves options entries) :
    ∃ key ∈ Entries.keys entries, ∃ path, leaf.path = key :: path := by
  induction entries with
  | nil => exact absurd h (by simp [entryLeaves])
  | cons entry entries ih =>
    obtain ⟨key, value⟩ := entry
    rw [entryLeaves, List.mem_append] at h
    rcases h with h | h
    · split at h
      · exact absurd h List.not_mem_nil
      · obtain ⟨below, _, rfl⟩ := List.mem_map.1 h
        exact ⟨key, List.mem_cons_self, below.path, rfl⟩
    · obtain ⟨first, hfirst, path, hpath⟩ := ih h
      exact ⟨first, List.mem_cons_of_mem _ hfirst, path, hpath⟩

/-- A leaf of an object has a path. -/
theorem path_ne_nil_of_mem_entryLeaves {options : Options} {entries : Object} {leaf : Leaf}
    (h : leaf ∈ entryLeaves options entries) : leaf.path ≠ [] := by
  obtain ⟨_, _, _, hpath⟩ := path_of_mem_entryLeaves h
  rw [hpath]
  exact List.cons_ne_nil _ _

/-- A leaf of an array has a path. -/
theorem path_ne_nil_of_mem_itemLeaves {options : Options} {items : List Json} {index : Nat}
    {leaf : Leaf} (h : leaf ∈ itemLeaves options index items) : leaf.path ≠ [] := by
  induction items generalizing index with
  | nil => exact absurd h (by simp [itemLeaves])
  | cons item items ih =>
    rw [itemLeaves, List.mem_append] at h
    rcases h with h | h
    · exact path_ne_nil_of_mem_under h
    · exact ih h

/-- Putting leaves into an object leaves at least one entry. -/
theorem insertAll_ne_nil {more : List Leaf} (hne : more ≠ [])
    (hpath : ∀ leaf ∈ more, leaf.path ≠ []) (object : Object) : insertAll object more ≠ [] := by
  have hone : ∀ (o : Object) (leaf : Leaf), leaf.path ≠ [] → insert o leaf ≠ [] := by
    intro o leaf hleaf
    obtain ⟨path, text⟩ := leaf
    match path with
    | [] => exact absurd rfl hleaf
    | [last] => exact Entries.alter_ne_nil _ _ _
    | segment :: next :: path => exact Entries.alter_ne_nil _ _ _
  induction more generalizing object with
  | nil => exact absurd rfl hne
  | cons leaf more ih =>
    rw [insertAll_cons]
    cases more with
    | nil => exact hone object leaf (hpath leaf List.mem_cons_self)
    | cons next more =>
      exact ih (List.cons_ne_nil _ _) (fun l hl => hpath l (List.mem_cons_of_mem _ hl)) _

/-- The leaves of a container, put below a new key, leave there what the container keeps. -/
theorem insertAll_container {key : String} (hkey : key ≠ "") {more : List Leaf}
    (hpath : ∀ leaf ∈ more, leaf.path ≠ []) {object : Object} (hnew : key ∉ Entries.keys object)
    {left : Object} (hleft : insertAll [] more = left) :
    insertAll object (more.map (Leaf.under key)) =
      object ++ ((container left).map fun value => (key, value)).toList := by
  cases more with
  | nil =>
    rw [insertAll_nil] at hleft
    subst hleft
    simp [container]
  | cons leaf more =>
    have hne : left ≠ [] := hleft ▸ insertAll_ne_nil (List.cons_ne_nil _ _) hpath []
    rw [insertAll_under hkey (List.cons_ne_nil _ _) hpath, Entries.alter_of_not_mem hnew,
      container_of_ne_nil hne, Option.map_none, Option.getD_none, hleft]
    rfl

/-- A leaf without a path, put below a new key, leaves its text there. -/
theorem insertAll_leaf {key : String} (hkey : key ≠ "") {object : Object}
    (hnew : key ∉ Entries.keys object) (text : Option String) :
    insertAll object ([⟨[], text⟩].map (Leaf.under key)) = object ++ [(key, placed text none)] := by
  rw [List.map_singleton, insertAll_cons, insertAll_nil, insert, Leaf.under, insertAt, keyFor,
    if_neg hkey, Entries.alter_of_not_mem hnew]

/-! ### The leaves of a value, put together -/

mutual

/-- The leaves of a value, put below a new key, leave there what survives of the value. -/
theorem insertAll_leaves (options : Options) : ∀ {value : Json}, value.WellKeyed →
    ∀ {key : String}, key ≠ "" → ∀ {object : Object}, key ∉ Entries.keys object →
      insertAll object ((leaves options value).map (Leaf.under key)) =
        object ++ ((survivor options value).map fun left => (key, left)).toList
  | .null, _, key, _, object, _ => by
    rw [leaves_null, survivor]
    simp
  | .bool b, _, key, hkey, object, hnew => by
    rw [leaves, survivor, insertAll_leaf hkey hnew]
    rfl
  | .number n, _, key, hkey, object, hnew => by
    rw [leaves, survivor, insertAll_leaf hkey hnew]
    rfl
  | .string s, _, key, hkey, object, hnew => by
    rw [leaves, survivor, insertAll_leaf hkey hnew]
    rfl
  | .object [], _, key, hkey, object, hnew => by
    rw [leaves, survivor, insertAll_leaf hkey hnew]
    rfl
  | .object (entry :: entries), hvalue, key, hkey, object, hnew => by
    rw [Json.WellKeyed] at hvalue
    have hinner : insertAll [] (entryLeaves options (entry :: entries)) =
        [] ++ survivingEntries options (entry :: entries) :=
      insertAll_entryLeaves options hvalue fun _ _ => List.not_mem_nil
    rw [leaves, survivor]
    exact insertAll_container hkey (fun _ => path_ne_nil_of_mem_entryLeaves) hnew hinner
  | .array items, hvalue, key, hkey, object, hnew => by
    rw [Json.WellKeyed] at hvalue
    have hinner : insertAll [] (itemLeaves options 0 items) =
        [] ++ survivingItems options 0 items :=
      insertAll_itemLeaves options hvalue fun _ _ => List.not_mem_nil
    rw [leaves, survivor]
    exact insertAll_container hkey (fun _ => path_ne_nil_of_mem_itemLeaves) hnew hinner

/-- The leaves of an object, put into an object that has none of its keys, add what survives. -/
theorem insertAll_entryLeaves (options : Options) : ∀ {entries : Object}, EntriesWellKeyed entries →
    ∀ {object : Object}, (∀ key ∈ Entries.keys entries, key ∉ Entries.keys object) →
      insertAll object (entryLeaves options entries) = object ++ survivingEntries options entries
  | [], _, object, _ => by
    rw [entryLeaves, survivingEntries, insertAll_nil, List.append_nil]
  | (key, value) :: rest, hentries, object, hnew => by
    rw [EntriesWellKeyed] at hentries
    obtain ⟨hkey, hfresh, hvalue, hrest⟩ := hentries
    rw [entryLeaves, survivingEntries, insertAll_append, ← List.append_assoc]
    have hfirst : insertAll object
          (if options.omits key value then [] else (leaves options value).map (Leaf.under key)) =
        object ++ (if options.omits key value then []
          else ((survivor options value).map fun left => (key, left)).toList) := by
      split
      · rw [insertAll_nil, List.append_nil]
      · exact insertAll_leaves options hvalue hkey (hnew key List.mem_cons_self)
    rw [hfirst]
    refine insertAll_entryLeaves options hrest fun k hk hmem => ?_
    rw [Entries.keys_append, List.mem_append] at hmem
    rcases hmem with hmem | hmem
    · exact hnew k (List.mem_cons_of_mem _ hk) hmem
    · split at hmem
      · exact List.not_mem_nil hmem
      · exact hfresh (eq_of_mem_keys_kept hmem ▸ hk)

/-- The leaves of items, put into an object that has no such index, add what survives. -/
theorem insertAll_itemLeaves (options : Options) : ∀ {items : List Json}, ItemsWellKeyed items →
    ∀ {index : Nat} {object : Object},
      (∀ i, index ≤ i → Decimal.natText i ∉ Entries.keys object) →
      insertAll object (itemLeaves options index items) =
        object ++ survivingItems options index items
  | [], _, index, object, _ => by
    rw [itemLeaves, survivingItems, insertAll_nil, List.append_nil]
  | item :: items, hitems, index, object, hnew => by
    rw [ItemsWellKeyed] at hitems
    rw [itemLeaves, survivingItems, insertAll_append, ← List.append_assoc,
      insertAll_leaves options hitems.1 (Decimal.natText_ne_empty index)
        (hnew index (Nat.le_refl index))]
    refine insertAll_itemLeaves options hitems.2 fun i hi hmem => ?_
    rw [Entries.keys_append, List.mem_append] at hmem
    rcases hmem with hmem | hmem
    · exact hnew i (by omega) hmem
    · have hindex := Decimal.natText_injective (eq_of_mem_keys_kept hmem)
      omega

end

/-- The leaves of an object, put together, are what survives of it. -/
theorem insertAll_nil_entryLeaves {options : Options} {entries : Object}
    (h : EntriesWellKeyed entries) :
    insertAll [] (entryLeaves options entries) = survivingEntries options entries := by
  rw [insertAll_entryLeaves options h fun _ _ => List.not_mem_nil, List.nil_append]

/-- An object has leaves if and only if something of it survives. -/
theorem entryLeaves_eq_nil {options : Options} {entries : Object} (h : EntriesWellKeyed entries) :
    entryLeaves options entries = [] ↔ survivingEntries options entries = [] := by
  have hall : insertAll [] (entryLeaves options entries) = survivingEntries options entries :=
    insertAll_nil_entryLeaves h
  constructor
  · intro hnil
    rw [← hall, hnil, insertAll_nil]
  · intro hnil
    refine Decidable.byContradiction fun hne => ?_
    exact insertAll_ne_nil hne (fun _ => path_ne_nil_of_mem_entryLeaves) [] (hall.trans hnil)

end Query

end QueryFilter
