import QueryFilter.Proofs.Query.Lasting

/-!
# The objects that are read

Any text is read as a query string, but not every object is read from one.  The objects that are
read consist of texts and objects (`EntriesTextual`), with well-formed keys: that is what putting a
leaf into an object preserves (`textual_insertAt`), whatever the path of the leaf is.

Of such an object everything survives if no mode is left out, so that it is read again from the
query string it is written as (`reads_again`).  Hence all objects of this form are read
(`exists_deserialize_iff`).
-/

namespace QueryFilter

/-! ### Texts and objects -/

mutual

/-- A value consists of texts and objects. -/
def Json.Textual : Json → Prop
  | .string _ => True
  | .object entries => EntriesTextual entries
  | _ => False

/-- The values below some keys consist of texts and objects. -/
def EntriesTextual : List (String × Json) → Prop
  | [] => True
  | (_, value) :: rest => value.Textual ∧ EntriesTextual rest

end

/-- The entries of a value of texts and objects are such values. -/
theorem Json.Textual.entries {value : Json} (h : value.Textual) : EntriesTextual value.entries := by
  cases value with
  | object entries =>
    rw [Textual] at h
    exact h
  | _ => trivial

/-- A change that leaves texts and objects at its key leaves texts and objects. -/
theorem EntriesTextual.alter {entries : Object} (h : EntriesTextual entries) (key : String)
    {f : Option Json → Json}
    (hf : ∀ old, EntriesTextual ((old.map Json.entries).getD []) → (f old).Textual) :
    EntriesTextual (Entries.alter entries key f) := by
  induction entries with
  | nil => exact ⟨hf none trivial, trivial⟩
  | cons entry entries ih =>
    obtain ⟨k, value⟩ := entry
    obtain ⟨hvalue, hrest⟩ := h
    rw [Entries.alter]
    split
    · exact ⟨hf (some value) hvalue.entries, hrest⟩
    · exact ⟨hvalue, ih hrest⟩

namespace Query

/-! ### What is read -/

/-- A text that is placed on texts and objects leaves texts and objects. -/
theorem textual_placed (text : Option String) {old : Option Json}
    (h : EntriesTextual ((old.map Json.entries).getD [])) : (placed text old).Textual := by
  cases text with
  | some s => trivial
  | none =>
    rw [placed, Json.Textual]
    exact h

/-- A leaf that is put among texts and objects leaves texts and objects. -/
theorem textual_insertAt (text : Option String) : ∀ (path : List String) {object : Object},
    EntriesTextual object → EntriesTextual (insertAt text path object)
  | [], _, h => h
  | [last], object, h => by
    rw [insertAt]
    exact h.alter _ fun _ => textual_placed text
  | segment :: next :: path, object, h => by
    rw [insertAt]
    refine h.alter _ fun old hold => ?_
    rw [Json.Textual]
    exact textual_insertAt text (next :: path) hold

/-- Leaves that are put among texts and objects leave texts and objects. -/
theorem textual_insertAll (leaves : List Leaf) {object : Object} (h : EntriesTextual object) :
    EntriesTextual (insertAll object leaves) := by
  induction leaves generalizing object with
  | nil => exact h
  | cons leaf leaves ih => exact ih (textual_insertAt leaf.text leaf.path h)

/-- What is read consists of texts and objects, and its keys are well-formed. -/
theorem textual_of_deserialize {query : String} {object : Object}
    (h : deserialize query = some object) : EntriesTextual object ∧ EntriesWellKeyed object := by
  refine ⟨?_, by simpa [h] using wellKeyed_deserialize query⟩
  obtain ⟨pairs, -, rfl⟩ := Option.map_eq_some_iff.1 h
  exact textual_insertAll _ trivial

/-! ### What is written again -/

/-- The options under which modes are written as well. -/
def Options.complete : Options := ⟨false⟩

/-- With complete options nothing is left out. -/
theorem omits_complete (key : String) (value : Json) : Options.complete.omits key value = false :=
  rfl

mutual

/-- Of texts and objects everything survives. -/
theorem survivor_of_textual : ∀ {value : Json}, value.Textual →
    survivor .complete value = some value
  | .null, h => h.elim
  | .bool _, h => h.elim
  | .number _, h => h.elim
  | .array _, h => h.elim
  | .string _, _ => by rw [survivor]
  | .object [], _ => by rw [survivor]
  | .object (entry :: entries), h => by
    rw [Json.Textual] at h
    rw [survivor, survivingEntries_of_textual h, container]

/-- With complete options all texts and objects survive. -/
theorem survivingEntries_of_textual : ∀ {entries : Object}, EntriesTextual entries →
    survivingEntries .complete entries = entries
  | [], _ => by rw [survivingEntries]
  | (key, value) :: entries, h => by
    rw [EntriesTextual] at h
    rw [survivingEntries_cons_kept (omits_complete key value) (survivor_of_textual h.1),
      survivingEntries_of_textual h.2]

end

/-- Texts and objects below well-formed keys are read again from what they are written as. -/
theorem deserialize_serialize_of_textual {object : Object} (htextual : EntriesTextual object)
    (hkeyed : EntriesWellKeyed object) (hne : object ≠ []) :
    deserialize (serialize .complete "" (.object object)) = some object := by
  have hall := survivingEntries_of_textual htextual
  have hread : deserialize (serialize .complete "" (.object object)) =
      some (survivingEntries .complete object) := deserialize_serialize hkeyed (by rwa [hall])
  rwa [hall] at hread

/-- Re-encoding is lossless: whatever text an object was read from, it consists of texts and
objects below well-formed keys, and it is read again from the query string it is written as, unless
it has no entries. -/
theorem reads_again {query : String} {object : Object} (h : deserialize query = some object) :
    EntriesTextual object ∧ EntriesWellKeyed object ∧
      (object ≠ [] → deserialize (serialize .complete "" (.object object)) = some object) := by
  obtain ⟨htextual, hkeyed⟩ := textual_of_deserialize h
  exact ⟨htextual, hkeyed, deserialize_serialize_of_textual htextual hkeyed⟩

/-- A query string with an empty segment, a bracket that is not closed, a bare key, an escape that
is none, and a text that an object replaces. -/
def sampleQuery : String :=
  "?a[b]=1&a[]=2&x[=3&staff[some]&%zz=+&&a[b][c]=%C3%A9"

/-- What the sample query string is read as. -/
def sampleRead : Object :=
  [("a", .object [("b", .object [("c", .string "é")]), ("1", .string "2")]), ("x[", .string "3"),
    ("staff", .object [("some", .object [])]), ("%zz", .string " ")]

/-- The sample is read as this object. -/
theorem deserialize_sampleQuery : deserialize sampleQuery = some sampleRead := by
  have hleaves : (splitPairs sampleQuery).map (List.map parsePair) =
      some [⟨["a", "b"], some "1"⟩, ⟨["a", ""], some "2"⟩, ⟨["x["], some "3"⟩,
        ⟨["staff", "some"], none⟩, ⟨["%zz"], some " "⟩, ⟨["a", "b", "c"], some "é"⟩] := by
    decide +kernel
  obtain ⟨pairs, hpairs, hparsed⟩ := Option.map_eq_some_iff.1 hleaves
  rw [deserialize, hpairs, Option.map_some, hparsed]
  rfl

/-- What the sample query string is read as is read again. -/
theorem sampleQuery_readsAgain :
    deserialize sampleQuery = some sampleRead ∧
      EntriesTextual sampleRead ∧ EntriesWellKeyed sampleRead ∧
      deserialize (serialize .complete "" (.object sampleRead)) = some sampleRead := by
  obtain ⟨htextual, hkeyed, hagain⟩ := reads_again deserialize_sampleQuery
  exact ⟨deserialize_sampleQuery, htextual, hkeyed, hagain (List.cons_ne_nil _ _)⟩

/-- The objects that are read are those of texts and objects below well-formed keys. -/
theorem exists_deserialize_iff {object : Object} :
    (∃ query, deserialize query = some object) ↔
      EntriesTextual object ∧ EntriesWellKeyed object := by
  constructor
  · rintro ⟨query, h⟩
    exact textual_of_deserialize h
  · rintro ⟨htextual, hkeyed⟩
    by_cases hne : object = []
    · -- an object without entries is read from pairs that are all empty
      exact ⟨"&", hne ▸ rfl⟩
    · exact ⟨_, deserialize_serialize_of_textual htextual hkeyed hne⟩

end Query

end QueryFilter
