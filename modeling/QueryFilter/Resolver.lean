import QueryFilter.Entries
import QueryFilter.Field.Basic

/-!
# Looking up fields

A lookup starts in one scope and falls back to the whole schema, of which it searches the first
levels.  The search is written once, for any way of asking for the fields below a relation.  A
`Resolver` remembers, by the name of the relation, what it was told, whatever way it asks
(`relationFieldsBy`); `belowAfresh` is the way in which it asks the schema.

With and without a memory the answers agree as long as names are unique in the schema.
-/

namespace QueryFilter

variable {σ : Type}

/-- Relations are followed to this many levels of fields. -/
def relationDepth : Nat := 3

/-! ### The search -/

/-- The first field with a property, in the given fields, then in those below each relation in turn,
`below` levels deep.  A level is searched before the levels under it. -/
def searchLevels {m : Type → Type} [Monad m] (ask : Field σ → m (List (Field σ)))
    (p : Field σ → Bool) : Nat → List (Field σ) → m (Option (Field σ))
  | 0, fields => pure (fields.find? p)
  | below + 1, fields =>
    match fields.find? p with
    | some field => pure (some field)
    | none =>
      (fields.filter Field.isRelation).findSomeM? fun relation => do
        searchLevels ask p below (← ask relation)

/-- The field for a key that is reached by a path: the one of the scope with that target, else the
first of the schema with the path as its name, else the first of the schema with that target. -/
def findField {m : Type → Type} [Monad m] (ask : Field σ → m (List (Field σ)))
    (root scope : List (Field σ)) (key path : String) : m (Option (Field σ)) :=
  match scope.find? fun field => field.target == key with
  | some field => pure (some field)
  | none => do
    match ← searchLevels ask (fun field => field.name == path) (relationDepth - 1) root with
    | some field => pure (some field)
    | none => searchLevels ask (fun field => field.target == key) (relationDepth - 1) root

/-! ### Asking for the fields below a relation -/

/-- The fields below a relation, as the schema has them; other fields have none below. -/
def Field.below [Schema σ] (field : Field σ) : List (Field σ) :=
  match field.relation with
  | some relation => Schema.fields relation.scope
  | none => []

/-- Asks the schema every time. -/
def belowAfresh [Schema σ] (field : Field σ) : Id (List (Field σ)) :=
  pure field.below

/-- The root of a schema, and the fields below relations that were asked for. -/
structure Resolver (σ : Type) where
  root : List (Field σ)
  known : Entries (List (Field σ))

/-- A computation that looks up fields. -/
abbrev Lookup (σ : Type) := StateM (Resolver σ)

namespace Lookup

variable {α β : Type}

/-- Runs a computation that answers a list for each of some values, and joins the lists. -/
def flatMap (f : α → Lookup σ (List β)) : List α → Lookup σ (List β)
  | [] => pure []
  | x :: xs => do
    let first ← f x
    let rest ← flatMap f xs
    return first ++ rest

@[simp] theorem run_pure (x : α) (resolver : Resolver σ) :
    (pure x : Lookup σ α) resolver = (x, resolver) := rfl

/-- The second of two computations runs with the resolver that the first one left. -/
@[simp] theorem run_bind (x : Lookup σ α) (f : α → Lookup σ β) (resolver : Resolver σ) :
    (x >>= f) resolver = f (x resolver).1 (x resolver).2 := rfl

/-- What is in the joined list is in one of the lists. -/
theorem mem_flatMap {f : α → Lookup σ (List β)} {xs : List α} {resolver : Resolver σ} {y : β}
    (h : y ∈ (flatMap f xs resolver).1) : ∃ x ∈ xs, ∃ resolver', y ∈ (f x resolver').1 := by
  induction xs generalizing resolver with
  | nil => simp [flatMap] at h
  | cons x xs ih =>
    simp only [flatMap, run_bind, run_pure, List.mem_append] at h
    rcases h with h | h
    · exact ⟨x, List.mem_cons_self, resolver, h⟩
    · obtain ⟨x', hx', r', hy⟩ := ih h
      exact ⟨x', List.mem_cons_of_mem _ hx', r', hy⟩

end Lookup

namespace Resolver

/-- A resolver that was not asked for anything. -/
def new (root : List (Field σ)) : Resolver σ :=
  ⟨root, []⟩

section Ask

variable {m : Type → Type} [Monad m] (ask : Field σ → m (List (Field σ)))

/-- The fields below a relation: those that are remembered under its name, else those that are asked
for, which are remembered from now on. -/
def relationFieldsBy (field : Field σ) : StateT (Resolver σ) m (List (Field σ)) := fun resolver =>
  match field.relation with
  | none => pure ([], resolver)
  | some _ =>
    match Entries.get? resolver.known field.name with
    | some fields => pure (fields, resolver)
    | none => do
      let fields ← ask field
      pure (fields, { resolver with known := Entries.insert resolver.known field.name fields })

/-- The field for a key that is reached by a path from a scope, given how fields below a relation
are asked for. -/
def findBy (scope : List (Field σ)) (key path : String) :
    StateT (Resolver σ) m (Option (Field σ)) := do
  findField (relationFieldsBy ask) (← get).root scope key path

end Ask

/-- The fields below a relation, as the schema has them or as they are remembered. -/
def relationFields [Schema σ] (field : Field σ) : Lookup σ (List (Field σ)) :=
  relationFieldsBy belowAfresh field

/-- The field for a key that is reached by a path from a scope. -/
def find [Schema σ] (scope : List (Field σ)) (key path : String) :
    Lookup σ (Option (Field σ)) :=
  findBy belowAfresh scope key path

/-- The value of a computation with a new resolver. -/
def eval {α : Type} (root : List (Field σ)) (lookup : Lookup σ α) : α :=
  (lookup (new root)).1

end Resolver

end QueryFilter
