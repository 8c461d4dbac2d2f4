import QueryFilter.Proofs.Catalog.Fields

/-!
# The memory of a resolver cannot be noticed

A resolver may be asked for any number of things, one after the other (`Call`).  In a universe of
fields with unique names it answers each call as if it had no memory, which is what the schema says
(`mapM_remembered_answers`, `afresh_eq_answer`).

All that the memory changes is how often the schema is asked.  A resolver that asks by `noted`
instead of `belowAfresh` writes down the name of the relation.  The names that are written down are
the keys of the memory (`Traced.Traces`), so that the schema is asked at most once for each of them.
-/

namespace QueryFilter

variable {σ : Type}

/-! ### Calls -/

/-- What a resolver may be asked for: a field for a key that is reached by a path from a scope, or
the fields below a relation. -/
inductive Call (σ : Type) where
  | find (scope : List (Field σ)) (key path : String)
  | below (field : Field σ)

/-- What a resolver answers. -/
inductive Answer (σ : Type) where
  | found (field : Option (Field σ))
  | fields (fields : List (Field σ))

namespace Call

/-- The answer to a call, given how both kinds of calls are answered. -/
def answerBy {m : Type → Type} [Monad m]
    (find : List (Field σ) → String → String → m (Option (Field σ)))
    (below : Field σ → m (List (Field σ))) : Call σ → m (Answer σ)
  | .find scope key path => Answer.found <$> find scope key path
  | .below field => Answer.fields <$> below field

end Call

/-! ### Writing down names -/

/-- A computation that looks up fields and writes down names. -/
abbrev Traced (σ : Type) := StateT (Resolver σ) (StateM (List String))

namespace Traced

variable {α β : Type}

/-- The second of two computations runs with the resolver and the names that the first one left. -/
theorem run_bind (x : Traced σ α) (f : α → Traced σ β) (resolver : Resolver σ)
    (names : List String) : (x >>= f) resolver names =
      f (x resolver names).1.1 (x resolver names).1.2 (x resolver names).2 := rfl

/-- The computation does what the other one does, and the names that it writes down are those under
which the resolver remembers something, each of them once. -/
def Traces (x : Traced σ α) (y : Lookup σ α) : Prop :=
  ∀ resolver : Resolver σ, Entries.Distinct resolver.known →
    x resolver (Entries.keys resolver.known) =
        (y resolver, Entries.keys (y resolver).2.known) ∧
      Entries.Distinct (y resolver).2.known

/-- A computation that is done asks for nothing. -/
theorem Traces.pure (a : α) : Traces (Pure.pure a : Traced σ α) (Pure.pure a) :=
  fun _ hdistinct => ⟨rfl, hdistinct⟩

/-- If two computations write down what they ask for, so do both one after the other. -/
theorem Traces.bind {x : Traced σ α} {y : Lookup σ α} {f : α → Traced σ β} {g : α → Lookup σ β}
    (h : Traces x y) (hrest : ∀ a, Traces (f a) (g a)) : Traces (x >>= f) (y >>= g) := by
  intro resolver hdistinct
  obtain ⟨hrun, hleft⟩ := h resolver hdistinct
  rw [run_bind, Lookup.run_bind, hrun]
  exact hrest _ _ hleft

/-- Changing the value of a computation does not change what it writes down. -/
theorem Traces.map {x : Traced σ α} {y : Lookup σ α} (h : Traces x y) (f : α → β) :
    Traces (f <$> x) (f <$> y) := by
  rw [map_eq_pure_bind, map_eq_pure_bind]
  exact h.bind fun a => Traces.pure (f a)

/-- A search writes down what its steps ask for. -/
theorem Traces.findSomeM? {f : α → Traced σ (Option β)} {g : α → Lookup σ (Option β)}
    (h : ∀ a, Traces (f a) (g a)) (xs : List α) :
    Traces (xs.findSomeM? f) (xs.findSomeM? g) := by
  induction xs with
  | nil => exact Traces.pure none
  | cons x xs ih =>
    rw [List.findSomeM?_cons, List.findSomeM?_cons]
    refine (h x).bind fun found => ?_
    cases found with
    | some b => exact Traces.pure (some b)
    | none => exact ih

/-- Computations in turn write down what each of them asks for. -/
theorem Traces.mapM {f : α → Traced σ β} {g : α → Lookup σ β} (h : ∀ a, Traces (f a) (g a))
    (xs : List α) : Traces (xs.mapM f) (xs.mapM g) := by
  induction xs with
  | nil => exact Traces.pure []
  | cons x xs ih =>
    rw [List.mapM_cons, List.mapM_cons]
    exact (h x).bind fun _ => ih.bind fun _ => Traces.pure _

end Traced

variable [Schema σ]

/-! ### Answers without a memory -/

namespace Call

/-- The answer of a resolver. -/
def remembered (call : Call σ) : Lookup σ (Answer σ) :=
  call.answerBy Resolver.find Resolver.relationFields

/-- The answer without a memory: the schema is asked every time. -/
def afresh (root : List (Field σ)) (call : Call σ) : Answer σ :=
  Id.run (call.answerBy (findField belowAfresh root) belowAfresh)

/-- The answer as the schema has it. -/
def answer (root : List (Field σ)) (call : Call σ) : Answer σ :=
  Id.run (call.answerBy (fun scope key path => pure (lookup root scope key path))
    fun field => pure field.below)

end Call

/-- A search that asks the schema every time answers the first hit of the enumeration. -/
theorem searchLevels_afresh (p : Field σ → Bool) (depth : Nat) (fields : List (Field σ)) :
    searchLevels belowAfresh p depth fields = pure ((levels depth fields).find? p) := by
  induction depth generalizing fields with
  | zero => rfl
  | succ depth ih =>
    rw [searchLevels, levels, List.find?_append]
    cases fields.find? p with
    | some field => rfl
    | none =>
      have hbelow : ∀ relation : Field σ,
          (belowAfresh relation >>= searchLevels belowAfresh p depth) =
            pure ((levels depth relation.below).find? p) := fun relation => ih relation.below
      rw [Option.none_or, List.find?_flatMap, ← List.findSomeM?_pure]
      exact congrArg (List.findSomeM? · _) (funext hbelow)

/-- Asking the schema every time finds the field that the schema has for a key and a path. -/
theorem findField_afresh (root scope : List (Field σ)) (key path : String) :
    findField belowAfresh root scope key path = pure (lookup root scope key path) := by
  rw [findField, lookup, searchLevels_afresh, searchLevels_afresh]
  cases scope.find? fun field => field.target == key with
  | some field => rfl
  | none =>
    rw [Option.none_or, pure_bind]
    cases (levels (relationDepth - 1) root).find? fun field => field.name == path <;> rfl

/-- Without a memory each call is answered by the schema. -/
theorem afresh_eq_answer (root : List (Field σ)) (call : Call σ) :
    call.afresh root = call.answer root := by
  cases call with
  | find scope key path =>
    rw [Call.afresh, Call.answerBy, findField_afresh]
    rfl
  | below field => rfl

/-! ### Answers from memory -/

section Remembered

open Lookup

variable {known : Field σ → Prop} {root : List (Field σ)}

/-- A resolver answers a call as the schema does, if it is about known fields. -/
theorem remembered_answers (hu : Universe known) (hroot : ∀ field ∈ root, known field)
    {call : Call σ} (h : ∀ field, call = .below field → known field) :
    Answers known root call.remembered (call.answer root) := by
  cases call with
  | find scope key path =>
    exact (Resolver.find_answers hu hroot scope key path).map Answer.found
  | below field =>
    exact (Resolver.relationFields_answers hu (h field rfl)).map Answer.fields

/-- A resolver answers call after call what the schema says. -/
theorem mapM_remembered_answers (hu : Universe known) (hroot : ∀ field ∈ root, known field)
    {calls : List (Call σ)} (h : ∀ field, .below field ∈ calls → known field) :
    Answers known root (calls.mapM Call.remembered) (calls.map (Call.answer root)) :=
  Answers.mapM fun _ hcall => remembered_answers hu hroot fun field heq => h field (heq ▸ hcall)

end Remembered

/-! ### How often the schema is asked -/

/-- Asks the schema, and writes down the name of the relation. -/
def noted (field : Field σ) : StateM (List String) (List (Field σ)) := fun names =>
  (field.below, names ++ [field.name])

/-- The answer of a resolver that writes down for which relations it asks the schema. -/
def Call.traced (call : Call σ) : Traced σ (Answer σ) :=
  call.answerBy (Resolver.findBy noted) (Resolver.relationFieldsBy noted)

namespace Traced

open Resolver (relationFieldsBy findBy)

/-- The schema is asked for the fields below a relation when nothing is remembered under its
name. -/
theorem traces_relationFields (field : Field σ) :
    Traces (relationFieldsBy noted field) (Resolver.relationFields field) := by
  intro resolver hdistinct
  unfold Resolver.relationFields relationFieldsBy
  cases field.relation with
  | none => exact ⟨rfl, hdistinct⟩
  | some relation =>
    cases hget : Entries.get? resolver.known field.name with
    | some fields => exact ⟨rfl, hdistinct⟩
    | none =>
      have hkeys : Entries.keys (Entries.insert resolver.known field.name field.below) =
          Entries.keys resolver.known ++ [field.name] := by
        rw [Entries.insert, Entries.keys_alter, if_neg (Entries.get?_eq_none.1 hget)]
      refine ⟨?_, hdistinct.insert field.name field.below⟩
      exact congrArg (Prod.mk _) hkeys.symm

/-- A search writes down the relations whose fields it asks for. -/
theorem traces_searchLevels (p : Field σ → Bool) (depth : Nat) (fields : List (Field σ)) :
    Traces (searchLevels (relationFieldsBy noted) p depth fields)
      (searchLevels Resolver.relationFields p depth fields) := by
  induction depth generalizing fields with
  | zero => exact Traces.pure _
  | succ depth ih =>
    rw [searchLevels, searchLevels]
    cases fields.find? p with
    | some field => exact Traces.pure _
    | none =>
      exact Traces.findSomeM? (fun relation => (traces_relationFields relation).bind ih) _

/-- Looking up a field writes down the relations whose fields it asks for. -/
theorem traces_find (scope : List (Field σ)) (key path : String) :
    Traces (findBy noted scope key path) (Resolver.find scope key path) := by
  have hfield : ∀ root, Traces (findField (relationFieldsBy noted) root scope key path)
      (findField Resolver.relationFields root scope key path) := by
    intro root
    rw [findField, findField]
    cases scope.find? fun field => field.target == key with
    | some field => exact Traces.pure _
    | none =>
      refine (traces_searchLevels _ _ root).bind fun found => ?_
      cases found with
      | some field => exact Traces.pure _
      | none => exact traces_searchLevels _ _ root
  exact fun resolver => hfield resolver.root resolver

/-- Each call writes down the relations whose fields it asks for. -/
theorem traces_call (call : Call σ) : Traces call.traced call.remembered := by
  cases call with
  | find scope key path => exact (traces_find scope key path).map Answer.found
  | below field => exact (traces_relationFields field).map Answer.fields

/-- Whatever a new resolver is asked for, it asks the schema at most once for the fields below each
relation. -/
theorem exists_names (root : List (Field σ)) (calls : List (Call σ)) :
    ∃ names, names.Nodup ∧ calls.mapM Call.traced (Resolver.new root) [] =
      (calls.mapM Call.remembered (Resolver.new root), names) := by
  obtain ⟨hrun, hdistinct⟩ :=
    Traces.mapM traces_call calls (Resolver.new root) Entries.distinct_nil
  exact ⟨_, hdistinct, hrun⟩

end Traced

namespace Catalog

/-- A resolver of a resource that is asked for anything that the resource reaches answers each call
as if it had no memory, which is what the schema says; and it asks the schema at most once for the
fields below each relation. -/
theorem calls_answered (resource : Resource) (calls : List (Call Scope))
    (h : ∀ field, .below field ∈ calls → Known resource field) :
    Resolver.eval (fields resource) (calls.mapM Call.remembered) =
        calls.map (Call.afresh (fields resource)) ∧
      calls.map (Call.afresh (fields resource)) = calls.map (Call.answer (fields resource)) ∧
      ∃ names, names.Nodup ∧ calls.mapM Call.traced (Resolver.new (fields resource)) [] =
        (calls.mapM Call.remembered (Resolver.new (fields resource)), names) := by
  have hafresh : calls.map (Call.afresh (fields resource)) =
      calls.map (Call.answer (fields resource)) :=
    List.map_congr_left fun call _ => afresh_eq_answer (fields resource) call
  refine ⟨?_, hafresh, Traced.exists_names _ _⟩
  rw [hafresh]
  exact (mapM_remembered_answers (universe_known resource) known_fields h).eval

/-- A resolver of staff that is asked twice for the fields of the company, once in a search that
finds nothing. -/
theorem calls_answered_company :
    let calls : List (Call Scope) :=
      [.find [] "missing" "missing", .below companyField,
        .find (fields .staff) "document" "company__document", .below companyField]
    (∀ field, .below field ∈ calls → Known .staff field) ∧
      Resolver.eval (fields .staff) (calls.mapM Call.remembered) =
          calls.map (Call.afresh (fields .staff)) ∧
        calls.map (Call.afresh (fields .staff)) = calls.map (Call.answer (fields .staff)) ∧
        ∃ names, names.Nodup ∧ calls.mapM Call.traced (Resolver.new (fields .staff)) [] =
          (calls.mapM Call.remembered (Resolver.new (fields .staff)), names) := by
  intro calls
  have hknown : ∀ field, .below field ∈ calls → Known .staff field := by
    intro field hfield
    have heq : field = companyField := by simpa [calls] using hfield
    exact heq ▸ known_fields _ companyField_mem
  exact ⟨hknown, calls_answered .staff calls hknown⟩

end Catalog

end QueryFilter
