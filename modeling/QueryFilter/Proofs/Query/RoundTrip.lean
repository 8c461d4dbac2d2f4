import QueryFilter.Proofs.Query.Bracket

/-!
# Objects through a query string

An object that is written as a query string and read back is what survives of it, with its keys in
order, whatever characters keys and texts are made of (`keeps_survivor`).  Nothing is read back
exactly if nothing survives, or if there was nothing to write.
-/

namespace QueryFilter.Query

/-- What survives of a container are its entries, if there are any. -/
theorem container_eq_some {entries left : Object} :
    container entries = some (.object left) ↔ left ≠ [] ∧ entries = left := by
  cases entries with
  | nil => exact ⟨fun h => absurd h (by simp [container]), fun h => absurd h.2.symm h.1⟩
  | cons entry entries =>
    rw [container, Option.some.injEq, Json.object.injEq]
    refine ⟨fun h => ⟨h ▸ List.cons_ne_nil _ _, h⟩, fun h => h.2⟩

/-- A container does not survive exactly if it is empty. -/
theorem container_eq_none {entries : Object} : container entries = none ↔ entries = [] := by
  cases entries <;> simp [container]

/-- What survives of an object with entries is the container of what survives of these. -/
theorem survivor_of_ne_nil (options : Options) {entries : Object} (h : entries ≠ []) :
    survivor options (.object entries) = container (survivingEntries options entries) := by
  cases entries with
  | nil => exact absurd rfl h
  | cons entry entries => rw [survivor]

/-- Round trip: an object without empty keys is read back as what survives of it, in order, and
nothing is read back exactly if nothing survives or the object has no entries. -/
theorem keeps_survivor (options : Options) {entries : Object} (h : EntriesWellKeyed entries) :
    (∀ left, deserialize (serialize options "" (.object entries)) = some left ↔
      entries ≠ [] ∧ survivor options (.object entries) = some (.object left)) ∧
    (deserialize (serialize options "" (.object entries)) = none ↔
      entries = [] ∨ survivor options (.object entries) = none) := by
  by_cases hnone : survivingEntries options entries = []
  · have hread : deserialize (serialize options "" (.object entries)) = none := by
      rw [serialize_of_no_survivor h hnone, deserialize_empty]
    have hgone : entries ≠ [] → survivor options (.object entries) = none := fun hne => by
      rw [survivor_of_ne_nil options hne, container_eq_none, hnone]
    rw [hread]
    constructor
    · intro left
      refine ⟨fun heq => absurd heq (by simp), fun ⟨hne, hleft⟩ => ?_⟩
      rw [hgone hne] at hleft
      exact absurd hleft (by simp)
    · exact iff_of_true rfl (or_iff_not_imp_left.2 hgone)
  · have hread := deserialize_serialize h hnone
    have hne : entries ≠ [] := fun hnil => hnone (by rw [hnil, survivingEntries])
    rw [hread, survivor_of_ne_nil options hne]
    constructor
    · intro left
      rw [container_eq_some, Option.some.injEq]
      exact ⟨fun heq => ⟨hne, heq ▸ hnone, heq⟩, fun heq => heq.2.2⟩
    · rw [container_eq_none]
      exact iff_of_false (by simp) (not_or.2 ⟨hne, hnone⟩)

/-- An object whose keys and texts have characters with a meaning in query strings, with parts of
which nothing survives. -/
def sampleObject : Object :=
  [("a[b]&c=d", .object [("x+y %", .array [.null, .string "?é & =[]", .array [], .bool true]),
      ("mode", .string "insensitive"), ("none", .object [])]),
    ("gone", .object [("mode", .string "insensitive"), ("null", .null)]),
    ("?", .number (.integer (-5)))]

/-- The sample object comes back without its nulls, its empty array and its modes. -/
theorem sampleObject_survives :
    EntriesWellKeyed sampleObject ∧
      deserialize (serialize .standard "" (.object sampleObject)) =
        some [("a[b]&c=d", .object [("x+y %", .object [("1", .string "?é & =[]"),
            ("3", .string "true")]), ("none", .object [])]),
          ("?", .string "-5")] := by
  have hkeyed : EntriesWellKeyed sampleObject := by
    simp [sampleObject, EntriesWellKeyed, ItemsWellKeyed, Json.WellKeyed]
  refine ⟨hkeyed, ((keeps_survivor .standard hkeyed).1 _).2 ⟨List.cons_ne_nil _ _, ?_⟩⟩
  rfl

end QueryFilter.Query
