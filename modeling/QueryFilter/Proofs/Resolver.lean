import QueryFilter.Proofs.Entries
import QueryFilter.Resolver

/-!
# A resolver answers what the schema says

A resolver remembers the fields below a relation by the name of the relation.  Within a universe of
fields in which names are unique (`Universe`), all it remembers is true (`Resolver.Faithful`), so
that its answers are those of the schema: `relationFields` answers the fields below, a search
answers the first hit in the enumeration `levels`, and `find` answers `lookup`.

`Lookup.Answers` says that a computation has one answer in every faithful resolver, which it leaves
faithful.  Its lemmas for `pure`, `bind` and `flatMap` carry that to whole computations.
-/

namespace QueryFilter

variable {σ : Type} [Schema σ]

/-- A collection of fields that holds the fields below each of its fields, and in which names are
unique. -/
structure Universe (known : Field σ → Prop) : Prop where
  below : ∀ {field}, known field → ∀ below ∈ field.below, known below
  unique : ∀ {a b}, known a → known b → a.name = b.name → a = b

/-! ### The enumeration of a schema -/

/-- The fields of the first levels: given fields come before those below each relation in turn. -/
def levels : Nat → List (Field σ) → List (Field σ)
  | 0, fields => fields
  | below + 1, fields =>
    fields ++ (fields.filter Field.isRelation).flatMap fun relation => levels below relation.below

/-- The field for a key that is reached by a path, as the schema has it. -/
def lookup (root scope : List (Field σ)) (key path : String) : Option (Field σ) :=
  (scope.find? fun field => field.target == key).or
    (((levels (relationDepth - 1) root).find? fun field => field.name == path).or
      ((levels (relationDepth - 1) root).find? fun field => field.target == key))

/-- The given fields stand in the first levels. -/
theorem mem_levels_of_mem {depth : Nat} {fields : List (Field σ)} {field : Field σ}
    (h : field ∈ fields) : field ∈ levels depth fields := by
  cases depth with
  | zero => exact h
  | succ depth => exact List.mem_append_left _ h

/-- The first levels of known fields are known. -/
theorem Universe.mem_levels {known : Field σ → Prop} (hu : Universe known) {depth : Nat}
    {fields : List (Field σ)} (h : ∀ field ∈ fields, known field) :
    ∀ field ∈ levels depth fields, known field := by
  induction depth generalizing fields with
  | zero => exact h
  | succ depth ih =>
    intro field hfield
    rcases List.mem_append.1 hfield with hfield | hfield
    · exact h field hfield
    · obtain ⟨relation, hrelation, hfield⟩ := List.mem_flatMap.1 hfield
      exact ih (hu.below (h relation (List.mem_filter.1 hrelation).1)) field hfield

/-- A field that is found by a name or a target stands in the scope or in the first levels. -/
theorem mem_of_lookup {root scope : List (Field σ)} {key path : String} {field : Field σ}
    (h : lookup root scope key path = some field) :
    field ∈ scope ∨ field ∈ levels (relationDepth - 1) root := by
  rw [lookup, Option.or_eq_some_iff] at h
  rcases h with h | ⟨_, h⟩
  · exact .inl (List.mem_of_find?_eq_some h)
  · rw [Option.or_eq_some_iff] at h
    rcases h with h | ⟨_, h⟩
    · exact .inr (List.mem_of_find?_eq_some h)
    · exact .inr (List.mem_of_find?_eq_some h)

/-- A field that is found from the root stands in the first levels. -/
theorem mem_levels_of_lookup {root : List (Field σ)} {key path : String} {field : Field σ}
    (h : lookup root root key path = some field) : field ∈ levels (relationDepth - 1) root := by
  rcases mem_of_lookup h with hmem | hmem
  · exact mem_levels_of_mem hmem
  · exact hmem

/-- What is found is known. -/
theorem Universe.known_of_lookup {known : Field σ → Prop} (hu : Universe known)
    {root scope : List (Field σ)} (hroot : ∀ field ∈ root, known field)
    (hscope : ∀ field ∈ scope, known field) {key path : String} {field : Field σ}
    (h : lookup root scope key path = some field) : known field := by
  rcases mem_of_lookup h with hmem | hmem
  · exact hscope field hmem
  · exact hu.mem_levels hroot field hmem

/-- A key is a target of its scope, or else it is looked up in the whole schema. -/
theorem cases_of_lookup {root scope : List (Field σ)} {key path : String} {field : Field σ}
    (h : lookup root scope key path = some field) :
    (field ∈ scope ∧ field.target = key) ∨ (∀ other ∈ scope, other.target ≠ key) ∧
      (field.name = path ∨ (levels (relationDepth - 1) root).find?
        (fun other => other.target == key) = some field) := by
  rw [lookup, Option.or_eq_some_iff, Option.or_eq_some_iff] at h
  rcases h with hscope | ⟨hnone, hroot⟩
  · refine .inl ⟨List.mem_of_find?_eq_some hscope, ?_⟩
    simpa using List.find?_some hscope
  · refine .inr ⟨fun other hother => by simpa using List.find?_eq_none.1 hnone other hother, ?_⟩
    rcases hroot with hname | ⟨-, htarget⟩
    · exact .inl (by simpa using List.find?_some hname)
    · exact .inr htarget

/-! ### Faithful resolvers -/

/-- All that a resolver of a root remembers about known fields is what the schema says. -/
structure Resolver.Faithful (known : Field σ → Prop) (root : List (Field σ))
    (resolver : Resolver σ) : Prop where
  root_eq : resolver.root = root
  below_eq : ∀ {field fields}, known field →
    Entries.get? resolver.known field.name = some fields → fields = field.below

/-- A new resolver remembers nothing that could be wrong. -/
theorem Resolver.faithful_new (known : Field σ → Prop) (root : List (Field σ)) :
    Faithful known root (new root) where
  root_eq := rfl
  below_eq _ h := absurd h (by simp [new])

/-- The computation has one answer in every faithful resolver, and leaves the resolver faithful. -/
def Lookup.Answers {α : Type} (known : Field σ → Prop) (root : List (Field σ))
    (lookup : Lookup σ α) (answer : α) : Prop :=
  ∀ resolver, Resolver.Faithful known root resolver →
    (lookup resolver).1 = answer ∧ Resolver.Faithful known root (lookup resolver).2

namespace Lookup

variable {α β : Type} {known : Field σ → Prop} {root : List (Field σ)}

/-- A computation that is done has its value as the answer. -/
theorem Answers.pure (x : α) : Answers known root (Pure.pure x) x :=
  fun _ hresolver => ⟨rfl, hresolver⟩

/-- The answer of two computations is that of the second one, given the answer of the first. -/
theorem Answers.bind {x : Lookup σ α} {f : α → Lookup σ β} {a : α} {b : β}
    (hx : Answers known root x a) (hf : Answers known root (f a) b) :
    Answers known root (x >>= f) b := by
  intro resolver hresolver
  obtain ⟨hanswer, hleft⟩ := hx resolver hresolver
  rw [run_bind, hanswer]
  exact hf _ hleft

/-- The answer of a changed value is the changed answer. -/
theorem Answers.map {x : Lookup σ α} {a : α} (h : Answers known root x a) (f : α → β) :
    Answers known root (f <$> x) (f a) := by
  intro resolver hresolver
  obtain ⟨hanswer, hleft⟩ := h resolver hresolver
  exact ⟨congrArg f hanswer, hleft⟩

/-- The answer of joined lists is the joined list of the answers. -/
theorem Answers.flatMap {f : α → Lookup σ (List β)} {g : α → List β} {xs : List α}
    (h : ∀ x ∈ xs, Answers known root (f x) (g x)) :
    Answers known root (flatMap f xs) (xs.flatMap g) := by
  induction xs with
  | nil => exact Answers.pure []
  | cons x xs ih =>
    have hrest := ih fun y hy => h y (List.mem_cons_of_mem _ hy)
    exact Answers.bind (h x List.mem_cons_self) (Answers.bind hrest (Answers.pure _))

/-- The answer of computations in turn is the list of their answers. -/
theorem Answers.mapM {f : α → Lookup σ β} {g : α → β} {xs : List α}
    (h : ∀ x ∈ xs, Answers known root (f x) (g x)) :
    Answers known root (xs.mapM f) (xs.map g) := by
  induction xs with
  | nil => exact Answers.pure []
  | cons x xs ih =>
    have hrest := ih fun y hy => h y (List.mem_cons_of_mem _ hy)
    rw [List.mapM_cons, List.map_cons]
    exact Answers.bind (h x List.mem_cons_self) (Answers.bind hrest (Answers.pure _))

/-- The value of a computation with a new resolver is its answer. -/
theorem Answers.eval {x : Lookup σ α} {a : α} (h : Answers known root x a) :
    Resolver.eval root x = a :=
  (h _ (Resolver.faithful_new known root)).1

end Lookup

namespace Resolver

open Lookup

variable {known : Field σ → Prop} {root : List (Field σ)}

/-- The fields below a known relation are those of the schema, remembered or not. -/
theorem relationFields_answers (hu : Universe known) {field : Field σ} (hfield : known field) :
    Answers known root (relationFields field) field.below := by
  intro resolver hresolver
  unfold relationFields relationFieldsBy
  cases hrelation : field.relation with
  | none =>
    have hbelow : field.below = [] := by rw [Field.below, hrelation]
    exact ⟨hbelow.symm, hresolver⟩
  | some relation =>
    cases hget : Entries.get? resolver.known field.name with
    | some fields =>
      have hfields := hresolver.below_eq hfield hget
      exact ⟨hfields, hresolver⟩
    | none =>
      refine ⟨rfl, hresolver.root_eq, ?_⟩
      intro other fields hother hother'
      -- a new entry is found by the name of this relation only, which no other field has
      by_cases hname : other.name = field.name
      · have heq : other = field := hu.unique hother hfield hname
        subst heq
        have hfound := (Entries.get?_insert_self _ _ _).symm.trans hother'
        exact (Option.some.inj hfound).symm
      · have hfound := (Entries.get?_insert_of_ne hname _ _).symm.trans hother'
        exact hresolver.below_eq hother hfound

/-- The answer of a search is the first hit among the answers. -/
theorem findSomeM?_answers {α β : Type} {f : α → Lookup σ (Option β)} {g : α → Option β}
    {xs : List α} (h : ∀ x ∈ xs, Answers known root (f x) (g x)) :
    Answers known root (xs.findSomeM? f) (xs.findSome? g) := by
  induction xs with
  | nil => exact Answers.pure none
  | cons x xs ih =>
    have hrest := ih fun y hy => h y (List.mem_cons_of_mem _ hy)
    rw [List.findSomeM?_cons, List.findSome?_cons]
    apply Answers.bind (h x List.mem_cons_self)
    cases g x with
    | some b => exact Answers.pure (some b)
    | none => exact hrest

/-- A search answers the first hit of the enumeration. -/
theorem searchLevels_answers (hu : Universe known) (p : Field σ → Bool) (depth : Nat)
    {fields : List (Field σ)} (h : ∀ field ∈ fields, known field) :
    Answers known root (searchLevels relationFields p depth fields)
      ((levels depth fields).find? p) := by
  induction depth generalizing fields with
  | zero => exact Answers.pure _
  | succ depth ih =>
    rw [searchLevels, levels, List.find?_append]
    cases fields.find? p with
    | some field => exact Answers.pure (some field)
    | none =>
      rw [Option.none_or, List.find?_flatMap]
      refine findSomeM?_answers fun relation hrelation => ?_
      have hknown : known relation := h relation (List.mem_filter.1 hrelation).1
      exact Answers.bind (relationFields_answers hu hknown) (ih (hu.below hknown))

/-- The field for a key and a path is the one that the schema has for them. -/
theorem find_answers (hu : Universe known) (hroot : ∀ field ∈ root, known field)
    (scope : List (Field σ)) (key path : String) :
    Answers known root (find scope key path) (lookup root scope key path) := by
  have hfind : Answers known root (findField relationFields root scope key path)
      (lookup root scope key path) := by
    unfold findField lookup
    cases scope.find? fun field => field.target == key with
    | some field => exact Answers.pure (some field)
    | none =>
      rw [Option.none_or]
      apply Answers.bind (searchLevels_answers hu _ _ hroot)
      cases (levels (relationDepth - 1) root).find? fun field => field.name == path with
      | some field => exact Answers.pure (some field)
      | none =>
        rw [Option.none_or]
        exact searchLevels_answers hu _ _ hroot
  intro resolver hresolver
  have hget : find scope key path resolver =
      findField relationFields resolver.root scope key path resolver := rfl
  rw [hget, hresolver.root_eq]
  exact hfind resolver hresolver

end Resolver

end QueryFilter
