import QueryFilter.Proofs.Resolver
import QueryFilter.Service.Rows

/-!
# What an intake accepts

An intake looks up fields and may meet a fault.  `Intake.Accepts` says that it meets none in any
faithful resolver and has one answer there, `Intake.Refuses` that it meets one and the same fault in
all of them; `Intake.Ensures` says what holds of every answer, if there is one.  All leave the
resolver faithful, so that they compose along `bind` and `mapM`.
-/

namespace QueryFilter.Intake

open Lookup

variable {σ α β : Type}

/-- The second of two readings runs after the first one succeeded, with the resolver that it
left. -/
theorem run_bind (x : Intake σ α) (f : α → Intake σ β) (resolver : Resolver σ) :
    ExceptT.run (x >>= f) resolver =
      match (ExceptT.run x resolver).1 with
      | .ok a => ExceptT.run (f a) (ExceptT.run x resolver).2
      | .error fault => (.error fault, (ExceptT.run x resolver).2) := by
  change (ExceptT.bindCont f (ExceptT.run x resolver).1) (ExceptT.run x resolver).2 = _
  cases (ExceptT.run x resolver).1 <;> rfl

variable [Schema σ] {known : Field σ → Prop} {root : List (Field σ)}

/-- The value of a row, given how the items of an array on a relation are read. -/
def value (nested : Field σ → List Json → Intake σ (List (Condition σ))) (field : Field σ)
    (json : Json) : Intake σ (Value σ) :=
  if field.isRelation then
    match json with
    | .array items => do return .conditions (← nested field items)
    | other => pure (.ofJson other)
  else pure (.ofJson json)

/-- In a row the field is read before the value. -/
theorem row_eq (nested : Field σ → List Json → Intake σ (List (Condition σ)))
    (scope : List (Field σ)) (input : ConditionInput) :
    row nested scope input = do
      let field ← field scope input.field
      let value ← value nested field input.value
      return .row input.id field input.operator value := by
  unfold row value
  refine bind_congr fun field => ?_
  by_cases hrelation : field.isRelation = true
  · simp only [hrelation, if_true]
    cases input.value <;> simp
  · simp [hrelation]

omit [Schema σ] in
/-- The value on a scalar field is taken as it is. -/
theorem value_scalar {field : Field σ} (h : field.isRelation = false)
    (nested : Field σ → List Json → Intake σ (List (Condition σ))) (json : Json) :
    value nested field json = pure (.ofJson json) := by
  unfold value
  rw [h, if_neg Bool.false_ne_true]

omit [Schema σ] in
/-- The value on a relation is the rows that its items are read as. -/
theorem value_items {field : Field σ} (h : field.isRelation = true)
    (nested : Field σ → List Json → Intake σ (List (Condition σ))) (items : List Json) :
    value nested field (.array items) = do return .conditions (← nested field items) := by
  unfold value
  rw [if_pos h]

/-- The intake meets no fault in a faithful resolver, has the answer, and leaves the resolver
faithful. -/
def Accepts (known : Field σ → Prop) (root : List (Field σ)) (intake : Intake σ α) (answer : α) :
    Prop :=
  Answers known root (ExceptT.run intake) (.ok answer)

/-- The intake meets the fault in every faithful resolver, and leaves the resolver faithful. -/
def Refuses (known : Field σ → Prop) (root : List (Field σ)) (intake : Intake σ α)
    (fault : InputFault) : Prop :=
  Answers known root (ExceptT.run intake) (.error fault)

/-- In a faithful resolver the intake has answers with a property only, and it leaves the resolver
faithful. -/
def Ensures (known : Field σ → Prop) (root : List (Field σ)) (intake : Intake σ α)
    (post : α → Prop) : Prop :=
  ∀ resolver, Resolver.Faithful known root resolver →
    (∀ answer, (ExceptT.run intake resolver).1 = .ok answer → post answer) ∧
      Resolver.Faithful known root (ExceptT.run intake resolver).2

/-! ### Accepted intakes -/

/-- A reading that is done accepts its answer. -/
theorem Accepts.pure (a : α) : Accepts known root (Pure.pure a) a :=
  Answers.pure _

/-- If two readings accept, so do both one after the other. -/
theorem Accepts.bind {x : Intake σ α} {f : α → Intake σ β} {a : α} {b : β}
    (hx : Accepts known root x a) (hf : Accepts known root (f a) b) :
    Accepts known root (x >>= f) b := by
  intro resolver hresolver
  obtain ⟨hanswer, hleft⟩ := hx resolver hresolver
  rw [run_bind, hanswer]
  exact hf _ hleft

/-- Lookups meet no fault. -/
theorem Accepts.lift {x : Lookup σ α} {a : α} (h : Answers known root x a) :
    Accepts known root (liftM x) a := by
  intro resolver hresolver
  obtain ⟨hanswer, hleft⟩ := h resolver hresolver
  exact ⟨congrArg Except.ok hanswer, hleft⟩

/-- If each value is accepted, so is the list of them. -/
theorem Accepts.mapM {f : α → Intake σ β} {g : α → β} {xs : List α}
    (h : ∀ x ∈ xs, Accepts known root (f x) (g x)) :
    Accepts known root (xs.mapM f) (xs.map g) := by
  induction xs with
  | nil => exact Accepts.pure []
  | cons x xs ih =>
    have hrest := ih fun y hy => h y (List.mem_cons_of_mem _ hy)
    rw [List.mapM_cons, List.map_cons]
    exact Accepts.bind (h x List.mem_cons_self) (Accepts.bind hrest (Accepts.pure _))

/-- A row is accepted with its field and its value. -/
theorem Accepts.row {scope : List (Field σ)} {input : ConditionInput} {field : Field σ}
    {nested : Field σ → List Json → Intake σ (List (Condition σ))} {given : Value σ}
    (hfield : Accepts known root (Intake.field scope input.field) field)
    (hvalue : Accepts known root (Intake.value nested field input.value) given) :
    Accepts known root (Intake.row nested scope input)
      (.row input.id field input.operator given) := by
  rw [row_eq]
  exact Accepts.bind hfield (Accepts.bind hvalue (Accepts.pure _))

/-- The outcome with a new resolver is the answer. -/
theorem Accepts.run {intake : Intake σ α} {a : α} (h : Accepts known root intake a) :
    Intake.run root intake = .ok a :=
  Answers.eval h

/-! ### Refused intakes -/

/-- A fault is refused with itself. -/
theorem Refuses.throw (fault : InputFault) :
    Refuses known root (throw fault : Intake σ α) fault :=
  Answers.pure _

/-- What comes behind a fault is not looked at. -/
theorem Refuses.bind {x : Intake σ α} {fault : InputFault} (hx : Refuses known root x fault)
    (f : α → Intake σ β) : Refuses known root (x >>= f) fault := by
  intro resolver hresolver
  obtain ⟨hanswer, hleft⟩ := hx resolver hresolver
  rw [run_bind, hanswer]
  exact ⟨rfl, hleft⟩

/-- What is refused after an accepted reading is refused as a whole. -/
theorem Accepts.bind_refuses {x : Intake σ α} {f : α → Intake σ β} {a : α} {fault : InputFault}
    (hx : Accepts known root x a) (hf : Refuses known root (f a) fault) :
    Refuses known root (x >>= f) fault := by
  intro resolver hresolver
  obtain ⟨hanswer, hleft⟩ := hx resolver hresolver
  rw [run_bind, hanswer]
  exact hf _ hleft

/-- The outcome with a new resolver is the fault. -/
theorem Refuses.run {intake : Intake σ α} {fault : InputFault}
    (h : Refuses known root intake fault) : Intake.run root intake = .error fault :=
  Answers.eval h

/-! ### Properties of answers -/

/-- A reading that is done ensures what holds of its answer. -/
theorem Ensures.pure {post : α → Prop} {a : α} (h : post a) :
    Ensures known root (Pure.pure a) post := by
  intro resolver hresolver
  refine ⟨fun answer hanswer => ?_, hresolver⟩
  obtain rfl : a = answer := Except.ok.inj hanswer
  exact h

/-- A reading ensures whatever follows from what it ensures. -/
theorem Ensures.mono {x : Intake σ α} {mid post : α → Prop} (h : Ensures known root x mid)
    (hpost : ∀ a, mid a → post a) : Ensures known root x post := by
  intro resolver hresolver
  obtain ⟨hmid, hleft⟩ := h resolver hresolver
  exact ⟨fun answer hanswer => hpost answer (hmid answer hanswer), hleft⟩

/-- A fault has no answer, so that anything is ensured of it. -/
theorem Ensures.throw (fault : InputFault) (post : α → Prop) :
    Ensures known root (throw fault) post := by
  intro resolver hresolver
  refine ⟨fun answer hanswer => ?_, hresolver⟩
  have hne : (Except.error fault : Except InputFault α) = .ok answer := hanswer
  exact absurd hne (by simp)

/-- Two readings one after the other ensure what the second one ensures after the first one. -/
theorem Ensures.bind {x : Intake σ α} {f : α → Intake σ β} {mid : α → Prop} {post : β → Prop}
    (hx : Ensures known root x mid) (hf : ∀ a, mid a → Ensures known root (f a) post) :
    Ensures known root (x >>= f) post := by
  intro resolver hresolver
  obtain ⟨hmid, hleft⟩ := hx resolver hresolver
  rw [run_bind]
  cases hanswer : (ExceptT.run x resolver).1 with
  | ok a => exact hf a (hmid a hanswer) _ hleft
  | error fault =>
    refine ⟨fun answer h => ?_, hleft⟩
    exact absurd h (by simp)

/-- What is accepted has no other answer. -/
theorem Accepts.ensures {x : Intake σ α} {a : α} (h : Accepts known root x a) :
    Ensures known root x (· = a) := by
  intro resolver hresolver
  obtain ⟨hanswer, hleft⟩ := h resolver hresolver
  refine ⟨fun answer hok => ?_, hleft⟩
  rw [hanswer] at hok
  exact (Except.ok.inj hok).symm

/-- Looking up ensures its answer. -/
theorem Ensures.lift {x : Lookup σ α} {a : α} (h : Answers known root x a) :
    Ensures known root (liftM x) (· = a) :=
  (Accepts.lift h).ensures

/-- What is ensured of the answer for each value is ensured of all answers of the list. -/
theorem Ensures.mapM {f : α → Intake σ β} {post : β → Prop} {xs : List α}
    (h : ∀ x ∈ xs, Ensures known root (f x) post) :
    Ensures known root (xs.mapM f) fun answers => ∀ answer ∈ answers, post answer := by
  induction xs with
  | nil => exact Ensures.pure fun _ hmem => absurd hmem List.not_mem_nil
  | cons x xs ih =>
    have hrest := ih fun y hy => h y (List.mem_cons_of_mem _ hy)
    rw [List.mapM_cons]
    refine Ensures.bind (h x List.mem_cons_self) fun a ha => ?_
    refine Ensures.bind hrest fun answers hanswers => Ensures.pure fun answer hmem => ?_
    rcases List.mem_cons.1 hmem with rfl | hmem
    · exact ha
    · exact hanswers answer hmem

/-- What is accepted with a new resolver has the property. -/
theorem Ensures.run {intake : Intake σ α} {post : α → Prop} (h : Ensures known root intake post)
    {a : α} (hrun : Intake.run root intake = .ok a) : post a :=
  (h _ (Resolver.faithful_new known root)).1 a hrun

end QueryFilter.Intake
