import QueryFilter.Proofs.Query.Lasting

/-!
# Putting a leaf into an object

Putting a leaf into an object is one change at the first key of its path, whatever the path is
(`insertAt_cons`): the key of an empty segment is the number of entries, and what is left there is
the leaf itself at the end of the path, an object that holds it before (`written`).

What stands below a key is seen through `below`, where a text and a missing entry have no entries.
-/

namespace QueryFilter

namespace Query

/-- The entries below an entry; a text and a missing entry have none. -/
def below (old : Option Json) : Object :=
  (old.map Json.entries).getD []

@[simp] theorem below_none : below none = [] := rfl

@[simp] theorem below_some (value : Json) : below (some value) = value.entries := rfl

/-- Below a key of a well-keyed object stand well-formed keys. -/
theorem wellKeyed_below {object : Object} (h : EntriesWellKeyed object) (key : String) :
    EntriesWellKeyed (below (Entries.get? object key)) := by
  cases hget : Entries.get? object key with
  | none => trivial
  | some value => exact ((entriesWellKeyed_iff.1 h).2 _ (Entries.mem_of_get? hget)).2.entries

/-! ### One change at the first key -/

/-- A segment with characters stands for itself. -/
theorem keyFor_of_ne {segment : String} (h : segment ≠ "") (object : Object) :
    keyFor object segment = segment :=
  if_neg h

/-- An empty segment stands for the number of entries. -/
theorem keyFor_empty (object : Object) : keyFor object "" = Decimal.natText object.length :=
  if_pos rfl

/-- What a leaf leaves at the first key of its path, if the given segments follow. -/
def written (text : Option String) : List String → Option Json → Json
  | [], old => placed text old
  | segment :: rest, old => .object (insertAt text (segment :: rest) (below old))

/-- A leaf is put in by rewriting the first key of its path. -/
theorem insertAt_cons (text : Option String) (segment : String) (rest : List String)
    (object : Object) : insertAt text (segment :: rest) object =
      Entries.alter object (keyFor object segment) (written text rest) := by
  cases rest with
  | nil => rw [insertAt]; rfl
  | cons next rest => rw [insertAt]; rfl

/-- If the path goes on, the rest is put in below the key. -/
theorem written_of_ne_nil {rest : List String} (h : rest ≠ []) (text : Option String)
    (old : Option Json) : written text rest old = .object (insertAt text rest (below old)) := by
  cases rest with
  | nil => exact absurd rfl h
  | cons segment rest => rfl

end Query

/-! ### Values and entries at a path -/

namespace Json

/-- What stands at a path stands at its rest below the first key. -/
theorem at?_object_cons (object : Object) (key : String) (path : List String) :
    at? (key :: path) (.object object) = (Entries.get? object key).bind (at? path) := rfl

/-- Below a key it does not matter whether a value is an object or stands for its entries. -/
theorem at?_object_entries {path : List String} (h : path ≠ []) (value : Json) :
    at? path (.object value.entries) = at? path value := by
  cases path with
  | nil => exact absurd rfl h
  | cons key path => rfl

end Json

end QueryFilter
