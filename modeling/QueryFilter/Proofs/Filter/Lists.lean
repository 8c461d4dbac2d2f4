import Mathlib.Data.List.Nodup
import QueryFilter.Filter.Restore
import QueryFilter.Proofs.Query.Reread

/-!
# Lists in a query string

A list stands in a query string item by item, each item with its index in brackets behind the
operator: `skills[in][0]=backend&skills[in][1]=sales`.  Reading puts the items into an object in the
order in which they arrive (`insertAll_arrival`), and the list is restored from the object by
its indices as numbers (`listItems_arrival`).

So a list comes back as it is, whatever characters its items are made of, in whatever order the
items arrive, and whatever pairs on other keys stand between them (`list_keeps_order`).
-/

namespace QueryFilter

namespace Query

open Text

/-! ### The pairs of items -/

/-- The pair of an item with its index, such as `skills[in][0]=backend`. -/
def itemPair (field : String) (operator : Operator) (item : String × Nat) : List Char :=
  Percent.encode field.toList ++
    bracketChars [operator.word.toList, (Decimal.natText item.2).toList] ++
      '=' :: Percent.encode item.1.toList

/-- Where the pair of an item puts its text. -/
def itemLeaf (field : String) (operator : Operator) (item : String × Nat) : Leaf :=
  ⟨[field, operator.word, Decimal.natText item.2], some item.1⟩

/-- Items with their indices as keys. -/
def itemEntries (items : List (String × Nat)) : Object :=
  items.map fun item => (Decimal.natText item.2, .string item.1)

variable {field : String} {operator : Operator}

/-- No character of an operator's word is escaped. -/
theorem encode_word (operator : Operator) :
    Percent.encode operator.word.toList = operator.word.toList := by
  cases operator <;> decide

/-- No character of an index is escaped. -/
theorem encode_natText (n : Nat) :
    Percent.encode (Decimal.natText n).toList = (Decimal.natText n).toList :=
  Percent.encode_of_unreserved fun _ hc =>
    Percent.isUnreserved_of_isDigit (Decimal.isDigit_of_mem_natText hc)

/-- The pair of an item is written for its leaf. -/
theorem pairChars?_itemLeaf (hfield : field ≠ "") (item : String × Nat) :
    pairChars? (itemLeaf field operator item) = some (itemPair field operator item) := by
  have hkey : keyChars (itemLeaf field operator item).path = Percent.encode field.toList ++
      bracketChars [operator.word.toList, (Decimal.natText item.2).toList] := by
    rw [itemLeaf, keyChars_cons hfield, List.map_cons, List.map_singleton, encode_word,
      encode_natText]
  have hne : (keyChars (itemLeaf field operator item).path).isEmpty = false :=
    List.isEmpty_eq_false_iff.2 (keyChars_ne_nil hfield _)
  rw [pairChars?, hne, itemPair, ← hkey]
  rfl

/-- The pair of an item is made of characters of pairs and read as its leaf. -/
theorem itemPair_reads (hfield : field ≠ "") (item : String × Nat) :
    itemPair field operator item ≠ [] ∧
      (∀ c ∈ itemPair field operator item, isPairChar c = true) ∧
        parsePair (itemPair field operator item) = itemLeaf field operator item := by
  obtain ⟨pair, hpair, hread⟩ :=
    exists_pairChars? (rfl : (itemLeaf field operator item).path = field :: _) hfield
  rw [pairChars?_itemLeaf hfield, Option.some_inj] at hpair
  rwa [hpair]

/-- A pair as they stand in a query string: it has characters, none of them separates pairs, and
it begins with a key. -/
structure KeyedPair (pair : List Char) : Prop where
  ne_nil : pair ≠ []
  chars : ∀ c ∈ pair, isPairChar c = true
  keyed : (parsePair pair).Keyed

/-- The pair of an item is one as they stand in a query string. -/
theorem keyedPair_itemPair (hfield : field ≠ "") (item : String × Nat) :
    KeyedPair (itemPair field operator item) := by
  obtain ⟨hne, hchars, hread⟩ := @itemPair_reads field operator hfield item
  exact ⟨hne, hchars, field, _, congrArg Leaf.path hread, hfield⟩

/-! ### The object of items -/

/-- Items with different indices are put into an object as they arrive. -/
theorem insertAll_items {items : List (String × Nat)} (h : (items.map Prod.snd).Nodup) :
    insertAll [] (items.map fun item => ⟨[Decimal.natText item.2], some item.1⟩) =
      itemEntries items := by
  have hdistinct : Entries.Distinct (itemEntries items) := by
    rw [Entries.Distinct, Entries.keys, itemEntries, List.map_map]
    have hkeys := h.map fun _ _ => Decimal.natText_injective
    rwa [List.map_map] at hkeys
  have hfold : ∀ object : Object,
      insertAll object (items.map fun item => ⟨[Decimal.natText item.2], some item.1⟩) =
        Entries.extend object (itemEntries items) := by
    clear h hdistinct
    induction items with
    | nil => exact fun _ => rfl
    | cons item items ih =>
      intro object
      rw [List.map_cons, insertAll_cons, ih, insert, insertAt,
        keyFor_of_ne (Decimal.natText_ne_empty _)]
      rfl
  rw [hfold, Entries.extend_nil_left hdistinct]

/-- The leaves of items make one object below the key and the operator. -/
theorem insertAll_arrival (hfield : field ≠ "") {items : List (String × Nat)}
    (hne : items ≠ []) (h : (items.map Prod.snd).Nodup) :
    insertAll [] (items.map (itemLeaf field operator)) =
      [(field, .object [(operator.word, .object (itemEntries items))])] := by
  have hleaves : items.map (itemLeaf field operator) =
      ((items.map fun item => (⟨[Decimal.natText item.2], some item.1⟩ : Leaf)).map
        (Leaf.under operator.word)).map (Leaf.under field) := by
    rw [List.map_map, List.map_map]
    rfl
  have hpath : ∀ leaf ∈ items.map fun item => (⟨[Decimal.natText item.2], some item.1⟩ : Leaf),
      leaf.path ≠ [] := by
    intro leaf hleaf
    obtain ⟨item, -, rfl⟩ := List.mem_map.1 hleaf
    exact List.cons_ne_nil _ _
  rw [hleaves, insertAll_under hfield (by simpa using hne) fun _ => path_ne_nil_of_mem_under,
    Entries.alter]
  simp only [Option.map_none, Option.getD_none]
  rw [insertAll_under (word_ne_empty operator) (by simpa using hne) hpath, Entries.alter]
  simp only [Option.map_none, Option.getD_none]
  rw [insertAll_items h]

end Query

namespace Restore

/-! ### The list of an object -/

open Query (itemEntries)

/-- A list is sorted to the one list with the same items whose indices grow. -/
theorem mergeSort_eq_of_perm {α : Type} {items sorted : List (Nat × α)} (h : items.Perm sorted)
    (hsorted : sorted.Pairwise fun a b => a.1 < b.1) :
    items.mergeSort (fun a b => a.1 ≤ b.1) = sorted := by
  have hperm : (items.mergeSort fun a b => a.1 ≤ b.1).Perm sorted :=
    (List.mergeSort_perm items _).trans h
  have hpairwise : (items.mergeSort fun a b => a.1 ≤ b.1).Pairwise fun a b => a.1 ≤ b.1 := by
    have hmerged : (items.mergeSort fun a b => a.1 ≤ b.1).Pairwise
        fun a b => decide (a.1 ≤ b.1) = true :=
      List.pairwise_mergeSort (fun a b c => by simpa using Nat.le_trans)
        (fun a b => by simpa using Nat.le_total a.1 b.1) items
    exact hmerged.imp fun hle => of_decide_eq_true hle
  have hnodup : (sorted.map Prod.fst).Nodup :=
    List.pairwise_map.2 (hsorted.imp fun hlt => Nat.ne_of_lt hlt)
  refine List.Perm.eq_of_pairwise (fun a b ha hb hab hba => ?_) hpairwise
    (hsorted.imp fun hlt => Nat.le_of_lt hlt) hperm
  -- two items of the list with one index are the same item
  exact List.inj_on_of_nodup_map hnodup (hperm.mem_iff.1 ha) hb (Nat.le_antisymm hab hba)

/-- The index of an item is read from its key. -/
theorem index?_natText {n : Nat} (h : n < Decimal.twoPow 64) :
    listItems.index? (Decimal.natText n) = some n := by
  rw [listItems.index?, Decimal.natText, String.toList_ofList, Decimal.natBelow?_toDigits,
    Option.filter_some, if_pos (decide_eq_true h)]

/-- A list is restored from its items, in whatever order they arrive. -/
theorem listItems_arrival {texts : List String} (hlength : texts.length ≤ Decimal.twoPow 64)
    {arrival : List (String × Nat)} (h : arrival.Perm texts.zipIdx) :
    listItems (.object (itemEntries arrival)) = texts := by
  let indexed := fun item : String × Nat => (item.2, Json.string item.1)
  have hread : (itemEntries arrival).mapM (fun entry =>
      (listItems.index? entry.1).map fun index => (index, entry.2)) =
        some (arrival.map indexed) := by
    rw [itemEntries, List.mapM_map]
    have hall : ∀ item ∈ arrival, item.2 < Decimal.twoPow 64 := fun item hitem =>
      Nat.lt_of_lt_of_le (List.snd_lt_of_mem_zipIdx (h.mem_iff.1 hitem)) hlength
    clear h
    induction arrival with
    | nil => rfl
    | cons item arrival ih =>
      have hrest := ih fun other hother => hall other (List.mem_cons_of_mem _ hother)
      rw [List.mapM_cons, Function.comp_apply, index?_natText (hall item List.mem_cons_self),
        hrest]
      rfl
  have hsorted : (texts.zipIdx.map indexed).Pairwise fun a b => a.1 < b.1 := by
    have hindices : (texts.zipIdx.map Prod.snd).Pairwise (· < ·) := by
      rw [List.zipIdx_map_snd]
      exact List.pairwise_lt_range' 1
    exact List.pairwise_map.2 (List.pairwise_map.1 hindices)
  have hsort := mergeSort_eq_of_perm (h.map indexed) hsorted
  rw [listItems]
  simp only [hread, hsort, List.map_map]
  exact List.zipIdx_map_fst 0 texts

end Restore

namespace Query

open Text Restore

variable {σ : Type}

/-- A list is restored by the types that hold lists, and by a choice under an operator with a
list. -/
theorem valueOf_object {operator : Operator} {type : FieldType}
    (htype : type = .multiSelect ∨ type = .select ∧ operator.isList = true) (entries : Object) :
    (valueOf type operator (.object entries) : Value σ) = .list (listItems (.object entries)) := by
  rcases htype with rfl | ⟨rfl, hlist⟩
  · rfl
  · rw [valueOf, hlist]
    rfl

/-- A list comes back as it is, in whatever order its items arrive and whatever pairs on other keys
stand between them.  The bound is that of the indices, which are 64-bit numbers. -/
theorem list_keeps_order {field : String} (hfield : field ≠ "") {operator : Operator}
    {type : FieldType} (htype : type = .multiSelect ∨ type = .select ∧ operator.isList = true)
    {texts : List String} (hne : texts ≠ []) (hlength : texts.length ≤ Decimal.twoPow 64)
    {arrival : List (String × Nat)} (harrival : arrival.Perm texts.zipIdx)
    {pairs : List (List Char)} (hpairs : ∀ pair ∈ pairs, KeyedPair pair)
    (hitems : pairs.filter (fun pair => (parsePair pair).isBelow field) =
      arrival.map (itemPair field operator)) :
    ∃ object operand, deserialize (joinWith "&" (pairs.map String.ofList)) = some object ∧
      Entries.get? object field = some (.object [(operator.word, operand)]) ∧
        (valueOf type operator operand : Value σ) = .list texts := by
  have hsome : arrival ≠ [] := by
    rintro rfl
    exact hne (List.zipIdx_eq_nil_iff.1 harrival.symm.eq_nil)
  have hsplit : splitPairs (joinWith "&" (pairs.map String.ofList)) = some pairs := by
    refine splitPairs_joinWith ?_ fun pair hpair =>
      ⟨(hpairs pair hpair).ne_nil, (hpairs pair hpair).chars⟩
    rintro rfl
    exact hsome (List.map_eq_nil_iff.1 hitems.symm)
  have hindices : (arrival.map Prod.snd).Nodup := by
    rw [(harrival.map Prod.snd).nodup_iff, List.zipIdx_map_snd]
    exact List.nodup_range'
  have hleaves : (pairs.map parsePair).filter (Leaf.isBelow field) =
      arrival.map (itemLeaf field operator) := by
    rw [List.filter_map]
    change ((pairs.filter fun pair => (parsePair pair).isBelow field).map parsePair) = _
    rw [hitems, List.map_map]
    exact List.map_congr_left fun item _ => (itemPair_reads hfield item).2.2
  have hkeyed : ∀ leaf ∈ pairs.map parsePair, leaf.Keyed := by
    intro leaf hleaf
    obtain ⟨pair, hpair, rfl⟩ := List.mem_map.1 hleaf
    exact (hpairs pair hpair).keyed
  refine ⟨insertAll [] (pairs.map parsePair), .object (itemEntries arrival), ?_, ?_, ?_⟩
  · rw [deserialize, hsplit, Option.map_some]
  · rw [get?_insertAll_congr hkeyed (b := []) rfl, hleaves, insertAll_arrival hfield hsome hindices,
      Entries.get?_cons_self]
  · rw [valueOf_object htype, listItems_arrival hlength harrival]

/-- Three items with a comma, brackets and a blank arrive in reverse, an item on another key between
them. -/
theorem reversedSkills_keep_order : ∃ object operand,
    deserialize "skills[in][2]=%5B1%5D&tags[in][0]=x&skills[in][1]=&skills[in][0]=a%2C%20b" =
        some object ∧
      Entries.get? object "skills" = some (.object [("in", operand)]) ∧
        (valueOf .multiSelect .oneOf operand : Value Unit) = .list ["a, b", "", "[1]"] := by
  let arrival := [("[1]", 2), ("", 1), ("a, b", 0)]
  let pairs := [itemPair "skills" .oneOf ("[1]", 2), itemPair "tags" .oneOf ("x", 0),
    itemPair "skills" .oneOf ("", 1), itemPair "skills" .oneOf ("a, b", 0)]
  have harrival : arrival.Perm ["a, b", "", "[1]"].zipIdx := by decide
  have hpairs : ∀ pair ∈ pairs, KeyedPair pair := by
    intro pair hpair
    simp only [pairs, List.mem_cons, List.not_mem_nil, or_false] at hpair
    obtain rfl | rfl | rfl | rfl := hpair
    all_goals exact keyedPair_itemPair (by decide) _
  have hitems : pairs.filter (fun pair => (parsePair pair).isBelow "skills") =
      arrival.map (itemPair "skills" .oneOf) := by decide +kernel
  exact list_keeps_order (by decide) (.inl rfl) (by decide) (by decide +kernel) harrival hpairs
    hitems

end Query

end QueryFilter
