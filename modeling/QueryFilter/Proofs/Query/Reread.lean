import QueryFilter.Proofs.Query.Bracket
import QueryFilter.Proofs.Query.Insert

/-!
# Reading back one key

What is read back at a key of an object comes from the leaves below this key alone
(`get?_insertAll_congr`).  So an object below a key is read back as it would be by itself
(`get?_reread`), whatever stands beside it: there may be empty keys, or one key twice, below the
other keys.
-/

namespace QueryFilter.Query

/-- Whether the path of a leaf begins with a key. -/
def Leaf.isBelow (key : String) (leaf : Leaf) : Bool :=
  leaf.path.head? == some key

/-- The path of a leaf begins with a key that is not empty. -/
def Leaf.Keyed (leaf : Leaf) : Prop :=
  ∃ first rest, leaf.path = first :: rest ∧ first ≠ ""

/-- The leaves of an object without empty keys begin with a key. -/
theorem keyed_of_mem_entryLeaves {options : Options} {entries : Object}
    (hkeys : ∀ key ∈ Entries.keys entries, key ≠ "") {leaf : Leaf}
    (h : leaf ∈ entryLeaves options entries) : leaf.Keyed := by
  obtain ⟨key, hkey, path, hpath⟩ := path_of_mem_entryLeaves h
  exact ⟨key, path, hpath, hkeys key hkey⟩

/-- A leaf with a key changes what stands at this key. -/
theorem insert_of_keyed {leaf : Leaf} {first : String} {rest : List String}
    (hpath : leaf.path = first :: rest) (hfirst : first ≠ "") (object : Object) :
    insert object leaf = Entries.alter object first (written leaf.text rest) := by
  rw [insert, hpath, insertAt_cons, keyFor_of_ne hfirst]

/-! ### One key among others -/

/-- What leaves leave at a key comes from those that begin with it. -/
theorem get?_insertAll_congr {leaves : List Leaf} (hkeyed : ∀ leaf ∈ leaves, leaf.Keyed)
    {key : String} {a b : Object} (h : Entries.get? a key = Entries.get? b key) :
    Entries.get? (insertAll a leaves) key =
      Entries.get? (insertAll b (leaves.filter (Leaf.isBelow key))) key := by
  induction leaves generalizing a b with
  | nil => exact h
  | cons leaf leaves ih =>
    obtain ⟨first, rest, hpath, hfirst⟩ := hkeyed leaf List.mem_cons_self
    have ih := fun {a b : Object} => @ih (fun l hl => hkeyed l (List.mem_cons_of_mem _ hl)) a b
    rw [insertAll_cons]
    by_cases heq : first = key
    · have hbelow : leaf.isBelow key = true := by simp [Leaf.isBelow, hpath, heq]
      rw [List.filter_cons_of_pos hbelow, insertAll_cons]
      refine ih ?_
      rw [insert_of_keyed hpath hfirst, insert_of_keyed hpath hfirst, heq,
        Entries.get?_alter_self, Entries.get?_alter_self, h]
    · have hbeside : ¬ leaf.isBelow key = true := by simp [Leaf.isBelow, hpath, heq]
      rw [List.filter_cons_of_neg hbeside]
      refine ih ?_
      rw [insert_of_keyed hpath hfirst, Entries.get?_alter_of_ne (Ne.symm heq), h]

/-- Leaves add no other keys than those they begin with. -/
theorem mem_keys_insertAll {leaves : List Leaf} (hkeyed : ∀ leaf ∈ leaves, leaf.Keyed)
    {object : Object} {key : String} (h : key ∈ Entries.keys (insertAll object leaves)) :
    key ∈ Entries.keys object ∨ ∃ leaf ∈ leaves, leaf.isBelow key = true := by
  induction leaves generalizing object with
  | nil => exact .inl h
  | cons leaf leaves ih =>
    obtain ⟨first, rest, hpath, hfirst⟩ := hkeyed leaf List.mem_cons_self
    rw [insertAll_cons, insert_of_keyed hpath hfirst] at h
    rcases ih (fun l hl => hkeyed l (List.mem_cons_of_mem _ hl)) h with hmem | ⟨l, hl, hbelow⟩
    · rcases Entries.mem_keys_alter.1 hmem with hmem | rfl
      · exact .inl hmem
      · exact .inr ⟨leaf, List.mem_cons_self, by simp [Leaf.isBelow, hpath]⟩
    · exact .inr ⟨l, List.mem_cons_of_mem _ hl, hbelow⟩

/-! ### What is read back -/

variable {entries : Object}

/-- What is read back from the query string of an object is what its leaves leave. -/
theorem reread_eq_insertAll (hkeys : ∀ key ∈ Entries.keys entries, key ≠ "") :
    reread entries = insertAll [] (entryLeaves .standard entries) := by
  by_cases hleaves : entryLeaves .standard entries = []
  · have hquery : serialize .standard "" (.object entries) = "" := by
      rw [serialize, pairs_object, hleaves]
      rfl
    rw [reread, hquery, hleaves]
    rfl
  · obtain ⟨parts, hsplit, hread⟩ := splitPairs_serialize hkeys hleaves
    rw [reread, deserialize, hsplit, Option.map_some, hread, Option.getD_some]

/-- What is read back has each key once. -/
theorem distinct_reread (entries : Object) : Entries.Distinct (reread entries) :=
  (wellKeyed_deserialize _).distinct

/-- No other keys are read back. -/
theorem mem_keys_of_reread (hkeys : ∀ key ∈ Entries.keys entries, key ≠ "") {key : String}
    (h : key ∈ Entries.keys (reread entries)) : key ∈ Entries.keys entries := by
  rw [reread_eq_insertAll hkeys] at h
  rcases mem_keys_insertAll (fun _ => keyed_of_mem_entryLeaves hkeys) h with
    hmem | ⟨leaf, hleaf, hbelow⟩
  · exact absurd hmem List.not_mem_nil
  · obtain ⟨first, hfirst, rest, hpath⟩ := path_of_mem_entryLeaves hleaf
    have heq : first = key := by simpa [Leaf.isBelow, hpath] using hbelow
    exact heq ▸ hfirst

/-- An object of which something is read back has leaves, namely those of its entries. -/
theorem leaves_of_reread (hkeys : ∀ key ∈ Entries.keys entries, key ≠ "")
    (hne : reread entries ≠ []) : entryLeaves .standard entries ≠ [] ∧
      leaves .standard (.object entries) = entryLeaves .standard entries := by
  rw [reread_eq_insertAll hkeys] at hne
  have hleaves : entryLeaves .standard entries ≠ [] := by
    intro hnil
    rw [hnil] at hne
    exact hne rfl
  cases entries with
  | nil => exact absurd rfl hleaves
  | cons entry entries => exact ⟨hleaves, by rw [leaves]⟩

/-- An object below a key is read back as it is by itself. -/
theorem get?_reread (hdistinct : Entries.Distinct entries)
    (hkeys : ∀ key ∈ Entries.keys entries, key ≠ "") {key : String} {inner : Object}
    (hinner : ∀ key ∈ Entries.keys inner, key ≠ "")
    (hget : Entries.get? entries key = some (.object inner)) (hne : reread inner ≠ []) :
    Entries.get? (reread entries) key = some (.object (reread inner)) := by
  obtain ⟨hleaves, hbelow⟩ := leaves_of_reread hinner hne
  have hmem := Entries.mem_of_get? hget
  have hfilter : (entryLeaves .standard entries).filter (Leaf.isBelow key) =
      (entryLeaves .standard inner).map (Leaf.under key) := by
    rw [← hbelow]
    exact filter_entryLeaves hdistinct hmem (omits_object .standard key inner)
  rw [reread_eq_insertAll hkeys, reread_eq_insertAll hinner,
    get?_insertAll_congr (fun _ => keyed_of_mem_entryLeaves hkeys) (b := []) rfl, hfilter,
    insertAll_under (hkeys key (Entries.mem_keys_of_mem hmem)) hleaves
      fun _ => path_ne_nil_of_mem_entryLeaves, Entries.get?_alter_self]
  rfl

/-- An object below the only key is read back as it is by itself. -/
theorem reread_singleton {key : String} (hkey : key ≠ "") {inner : Object}
    (hinner : ∀ key ∈ Entries.keys inner, key ≠ "") (hne : reread inner ≠ []) :
    reread [(key, .object inner)] = [(key, .object (reread inner))] := by
  obtain ⟨hleaves, hbelow⟩ := leaves_of_reread hinner hne
  have hkeys : ∀ k ∈ Entries.keys [(key, Json.object inner)], k ≠ "" := by
    intro k hk
    rw [List.mem_singleton.1 hk]
    exact hkey
  rw [reread_eq_insertAll hkeys, reread_eq_insertAll hinner, entryLeaves, entryLeaves,
    omits_object, if_neg Bool.false_ne_true, List.append_nil, hbelow,
    insertAll_under hkey hleaves fun _ => path_ne_nil_of_mem_entryLeaves]
  rfl

end QueryFilter.Query
