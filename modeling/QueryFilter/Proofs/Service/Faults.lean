import QueryFilter.Proofs.Service.Depth

/-!
# Which rows are refused

What a client sends is read row by row.  `Meant` says which rows the inputs mean, at every level of
relations one row for each input, in order.  `FirstFault` says at which fault the reading of inputs
ends: the inputs before it mean rows, and in its own input the field comes before the level, the
level before the items of the array, and all items before the rows that they stand for.

Inputs mean rows or have a first fault (`decided`), and the intake has the outcome that they tell
(`Meant.accepts`, `FirstFault.refuses`).  There is a fault if and only if one of the inputs is
`Flawed`, somewhere at the levels that are read.
-/

namespace QueryFilter

variable {σ : Type}

/-- The items of a value that is an array. -/
def Json.items? : Json → Option (List Json)
  | .array items => some items
  | _ => none

/-- The values with items are the arrays. -/
theorem Json.items?_eq_some {value : Json} {items : List Json} :
    value.items? = some items ↔ value = .array items := by
  cases value <;> simp [items?]

/-! ### Lists of answers -/

section Answers

variable {α β ε : Type} {f : α → Except ε β}

/-- If a list of readings succeeds, so does each of them. -/
theorem map_eq_of_mapM {xs : List α} {ys : List β} (h : xs.mapM f = .ok ys) :
    xs.map f = ys.map .ok := by
  induction xs generalizing ys with
  | nil =>
    obtain rfl : [] = ys := Except.ok.inj h
    rfl
  | cons x xs ih =>
    rw [List.mapM_cons] at h
    cases hx : f x with
    | error fault =>
      rw [hx] at h
      exact absurd h (by simp [bind, Except.bind])
    | ok y =>
      cases hxs : xs.mapM f with
      | error fault =>
        rw [hx, hxs] at h
        exact absurd h (by simp [bind, Except.bind])
      | ok others =>
        rw [hx, hxs] at h
        obtain rfl : y :: others = ys := Except.ok.inj h
        rw [List.map_cons, List.map_cons, hx, ih hxs]

/-- The first fault is the one that is met. -/
theorem mapM_eq_error {before after : List α} {x : α} {good : List β} {fault : ε}
    (hbefore : before.mapM f = .ok good) (hx : f x = .error fault) :
    (before ++ x :: after).mapM f = .error fault := by
  rw [List.mapM_append, hbefore, List.mapM_cons, hx]
  rfl

/-- There are answers for all, or there is a first fault. -/
theorem exists_answers_or_fault (f : α → Except ε β) (xs : List α) :
    (∃ ys, xs.mapM f = .ok ys) ∨ ∃ before x after good fault, xs = before ++ x :: after ∧
      before.mapM f = .ok good ∧ f x = .error fault := by
  induction xs with
  | nil => exact .inl ⟨[], rfl⟩
  | cons x xs ih =>
    cases hx : f x with
    | error fault => exact .inr ⟨[], x, xs, [], fault, rfl, rfl, hx⟩
    | ok y =>
      rcases ih with ⟨ys, hys⟩ | ⟨before, other, after, good, fault, rfl, hgood, hfault⟩
      · refine .inl ⟨y :: ys, ?_⟩
        rw [List.mapM_cons, hx, hys]
        rfl
      · refine .inr ⟨x :: before, other, after, y :: good, fault, rfl, ?_, hfault⟩
        rw [List.mapM_cons, hx, hgood]
        rfl

/-- Each answer of a list of readings is that for some value. -/
theorem exists_mem_of_answer {xs : List α} {ys : List β} (h : xs.mapM f = .ok ys) {y : β}
    (hy : y ∈ ys) : ∃ x ∈ xs, f x = .ok y := by
  have hmem : Except.ok y ∈ xs.map f := map_eq_of_mapM h ▸ List.mem_map_of_mem hy
  exact List.mem_map.1 hmem

/-- Each value of a list of readings has its answer among the answers. -/
theorem exists_answer_of_mem {xs : List α} {ys : List β} (h : xs.mapM f = .ok ys) {x : α}
    (hx : x ∈ xs) : ∃ y ∈ ys, f x = .ok y := by
  have hmem : f x ∈ ys.map Except.ok := map_eq_of_mapM h ▸ List.mem_map_of_mem hx
  obtain ⟨y, hy, heq⟩ := List.mem_map.1 hmem
  exact ⟨y, hy, heq.symm⟩

end Answers

/-! ### The field of a name -/

section Reading

variable [Schema σ]

/-- The field that a client means by a name: the one of the scope with this name or target, else the
first of the first levels of the schema with this name, else the first of these with this target. -/
def meantField? (root scope : List (Field σ)) (name : String) : Option (Field σ) :=
  (scope.find? fun field => field.name == name || field.target == name).or
    (lookup root scope name name)

/-- No field of the scope and of the first levels of the schema has the name, or has it as its
target. -/
def Unknown (root scope : List (Field σ)) (name : String) : Prop :=
  ∀ field, field ∈ scope ∨ field ∈ levels (relationDepth - 1) root →
    field.name ≠ name ∧ field.target ≠ name

/-- A name means no field exactly if it is unknown. -/
theorem meantField?_eq_none {root scope : List (Field σ)} {name : String} :
    meantField? root scope name = none ↔ Unknown root scope name := by
  simp only [meantField?, lookup, Unknown, Option.or_eq_none_iff, List.find?_eq_none,
    Bool.or_eq_true, beq_iff_eq, not_or]
  constructor
  · rintro ⟨hscope, -, hname, htarget⟩ field (hfield | hfield)
    · exact hscope field hfield
    · exact ⟨hname field hfield, htarget field hfield⟩
  · intro h
    exact ⟨fun field hfield => h field (.inl hfield), fun field hfield => (h field (.inl hfield)).2,
      fun field hfield => (h field (.inr hfield)).1, fun field hfield => (h field (.inr hfield)).2⟩

/-! ### What inputs mean -/

/-- The rows that inputs mean, with so many levels of relations below: one for each input, in order.
An array on a relation holds one row for each of its items. -/
inductive Meant (root : List (Field σ)) :
    Nat → List (Field σ) → List ConditionInput → List (Condition σ) → Prop
  | nil {below : Nat} {scope : List (Field σ)} : Meant root below scope [] []
  | plain {below : Nat} {scope : List (Field σ)} {input : ConditionInput}
      {inputs : List ConditionInput} {field : Field σ} {rows : List (Condition σ)}
      (hfield : meantField? root scope input.field = some field)
      (hvalue : field.isRelation = true → input.value.items? = none)
      (hrest : Meant root below scope inputs rows) :
      Meant root below scope (input :: inputs)
        (.row input.id field input.operator (.ofJson input.value) :: rows)
  | nested {below : Nat} {scope : List (Field σ)} {input : ConditionInput}
      {inputs nested : List ConditionInput} {field : Field σ} {items : List Json}
      {rows inner : List (Condition σ)}
      (hfield : meantField? root scope input.field = some field)
      (hrelation : field.isRelation = true) (hvalue : input.value.items? = some items)
      (hitems : items.mapM ConditionInput.ofJson = .ok nested)
      (hinner : Meant root below field.below nested inner)
      (hrest : Meant root (below + 1) scope inputs rows) :
      Meant root (below + 1) scope (input :: inputs)
        (.row input.id field input.operator (.conditions inner) :: rows)

/-- The fault that is met first, with so many levels of relations below. -/
inductive FirstFault (root : List (Field σ)) :
    Nat → List (Field σ) → List ConditionInput → InputFault → Prop
  | unknown {below : Nat} {scope : List (Field σ)} {input : ConditionInput}
      {inputs : List ConditionInput} (hfield : meantField? root scope input.field = none) :
      FirstFault root below scope (input :: inputs) (.unknownField input.field)
  | tooDeep {scope : List (Field σ)} {input : ConditionInput} {inputs : List ConditionInput}
      {field : Field σ} {items : List Json}
      (hfield : meantField? root scope input.field = some field)
      (hrelation : field.isRelation = true) (hvalue : input.value.items? = some items) :
      FirstFault root 0 scope (input :: inputs) (.nestedTooDeeply field.name)
  | item {below : Nat} {scope : List (Field σ)} {input : ConditionInput}
      {inputs good : List ConditionInput} {field : Field σ} {before after : List Json} {item : Json}
      {fault : ShapeFault} (hfield : meantField? root scope input.field = some field)
      (hrelation : field.isRelation = true)
      (hvalue : input.value.items? = some (before ++ item :: after))
      (hbefore : before.mapM ConditionInput.ofJson = .ok good)
      (hitem : ConditionInput.ofJson item = .error fault) :
      FirstFault root (below + 1) scope (input :: inputs) (.subCondition fault)
  | inside {below : Nat} {scope : List (Field σ)} {input : ConditionInput}
      {inputs nested : List ConditionInput} {field : Field σ} {items : List Json}
      {fault : InputFault} (hfield : meantField? root scope input.field = some field)
      (hrelation : field.isRelation = true) (hvalue : input.value.items? = some items)
      (hitems : items.mapM ConditionInput.ofJson = .ok nested)
      (hinner : FirstFault root below field.below nested fault) :
      FirstFault root (below + 1) scope (input :: inputs) fault
  | later {below : Nat} {scope : List (Field σ)} {input : ConditionInput}
      {inputs : List ConditionInput} {row : Condition σ} {fault : InputFault}
      (hrow : Meant root below scope [input] [row])
      (hrest : FirstFault root below scope inputs fault) :
      FirstFault root below scope (input :: inputs) fault

/-- An input has a flaw, wherever it is, with so many levels of relations below: no field has its
name, or it holds an array on a relation of the last level, or an item of such an array is no input
or is a flawed one. -/
inductive Flawed (root : List (Field σ)) : Nat → List (Field σ) → ConditionInput → Prop
  | unknown {below : Nat} {scope : List (Field σ)} {input : ConditionInput}
      (hfield : Unknown root scope input.field) : Flawed root below scope input
  | tooDeep {scope : List (Field σ)} {input : ConditionInput} {field : Field σ} {items : List Json}
      (hfield : meantField? root scope input.field = some field)
      (hrelation : field.isRelation = true) (hvalue : input.value.items? = some items) :
      Flawed root 0 scope input
  | item {below : Nat} {scope : List (Field σ)} {input : ConditionInput} {field : Field σ}
      {items : List Json} {item : Json} {fault : ShapeFault}
      (hfield : meantField? root scope input.field = some field)
      (hrelation : field.isRelation = true) (hvalue : input.value.items? = some items)
      (hitem : item ∈ items) (hfault : ConditionInput.ofJson item = .error fault) :
      Flawed root (below + 1) scope input
  | inside {below : Nat} {scope : List (Field σ)} {input sub : ConditionInput} {field : Field σ}
      {items : List Json} {item : Json}
      (hfield : meantField? root scope input.field = some field)
      (hrelation : field.isRelation = true) (hvalue : input.value.items? = some items)
      (hitem : item ∈ items) (hsub : ConditionInput.ofJson item = .ok sub)
      (hinner : Flawed root below field.below sub) : Flawed root (below + 1) scope input

/-! ### Inputs mean rows or have a fault -/

section Relations

variable {root : List (Field σ)} {below : Nat} {scope : List (Field σ)}

/-- An input and further ones mean the row of the one and the rows of the others. -/
theorem Meant.cons {input : ConditionInput} {inputs : List ConditionInput} {row : Condition σ}
    {rows : List (Condition σ)} (hrow : Meant root below scope [input] [row])
    (hrows : Meant root below scope inputs rows) :
    Meant root below scope (input :: inputs) (row :: rows) := by
  cases hrow with
  | plain hfield hvalue _ => exact .plain hfield hvalue hrows
  | nested hfield hrelation hvalue hitems hinner _ =>
    exact .nested hfield hrelation hvalue hitems hinner hrows

/-- Inputs mean rows, or there is a fault that is met first. -/
def Decided (root : List (Field σ)) (below : Nat) (scope : List (Field σ))
    (inputs : List ConditionInput) : Prop :=
  (∃ rows, Meant root below scope inputs rows) ∨ ∃ fault, FirstFault root below scope inputs fault

/-- One input is decided, whatever comes behind it, if all inputs of the next level are. -/
theorem exists_row_or_fault
    (hbelow : ∀ next, below = next + 1 → ∀ scope nested, Decided root next scope nested)
    (input : ConditionInput) :
    (∃ row, Meant root below scope [input] [row]) ∨
      ∃ fault, ∀ inputs, FirstFault root below scope (input :: inputs) fault := by
  cases hfield : meantField? root scope input.field with
  | none => exact .inr ⟨_, fun _ => .unknown hfield⟩
  | some field =>
    -- behind a known field only an array on a relation is looked into
    by_cases hplain : field.isRelation = true → input.value.items? = none
    · exact .inl ⟨_, .plain hfield hplain .nil⟩
    · obtain ⟨hrelation, hitems⟩ := Classical.not_imp.1 hplain
      obtain ⟨items, hvalue⟩ := Option.ne_none_iff_exists'.1 hitems
      cases below with
      | zero => exact .inr ⟨_, fun _ => .tooDeep hfield hrelation hvalue⟩
      | succ below =>
        rcases exists_answers_or_fault ConditionInput.ofJson items with
          ⟨nested, hnested⟩ | ⟨before, item, after, good, fault, rfl, hgood, hfault⟩
        · rcases hbelow below rfl field.below nested with ⟨inner, hinner⟩ | ⟨fault, hinner⟩
          · exact .inl ⟨_, .nested hfield hrelation hvalue hnested hinner .nil⟩
          · exact .inr ⟨fault, fun _ => .inside hfield hrelation hvalue hnested hinner⟩
        · exact .inr ⟨_, fun _ => .item hfield hrelation hvalue hgood hfault⟩

/-- If inputs on the level below are decided, so are those on this level. -/
theorem decided_of_next
    (hbelow : ∀ next, below = next + 1 → ∀ scope nested, Decided root next scope nested)
    (inputs : List ConditionInput) : Decided root below scope inputs := by
  induction inputs with
  | nil => exact .inl ⟨[], .nil⟩
  | cons input inputs ih =>
    rcases exists_row_or_fault hbelow input with ⟨row, hrow⟩ | ⟨fault, hfault⟩
    · rcases ih with ⟨rows, hrows⟩ | ⟨fault, hfault⟩
      · exact .inl ⟨row :: rows, hrow.cons hrows⟩
      · exact .inr ⟨fault, .later hrow hfault⟩
    · exact .inr ⟨fault, hfault inputs⟩

/-- All inputs mean rows or have a first fault. -/
theorem decided (root : List (Field σ)) (below : Nat) (scope : List (Field σ))
    (inputs : List ConditionInput) : Decided root below scope inputs := by
  induction below generalizing scope inputs with
  | zero => exact decided_of_next (fun _ h => absurd h.symm (Nat.succ_ne_zero _)) inputs
  | succ below ih =>
    refine decided_of_next (fun next hnext => ?_) inputs
    rw [← Nat.succ.inj hnext]
    exact ih

/-! ### Flaws -/

/-- The flaw of an input whose field is known lies in an array on a relation. -/
theorem Flawed.exists_items {input : ConditionInput} {field : Field σ}
    (h : Flawed root below scope input)
    (hfield : meantField? root scope input.field = some field) :
    field.isRelation = true ∧ ∃ items, input.value.items? = some items ∧
      ∀ next, below = next + 1 → ∃ item ∈ items,
        ∀ sub, ConditionInput.ofJson item = .ok sub → Flawed root next field.below sub := by
  have hsame : ∀ {other}, meantField? root scope input.field = some other → other = field :=
    fun hother => Option.some.inj (hother.symm.trans hfield)
  cases h with
  | unknown hunknown =>
    rw [meantField?_eq_none.2 hunknown] at hfield
    exact absurd hfield (by simp)
  | tooDeep hother hrelation hvalue =>
    obtain rfl := hsame hother
    exact ⟨hrelation, _, hvalue, fun _ h => absurd h.symm (Nat.succ_ne_zero _)⟩
  | @item _ _ _ _ _ item _ hother hrelation hvalue hitem hfault =>
    obtain rfl := hsame hother
    refine ⟨hrelation, _, hvalue, fun _ _ => ⟨item, hitem, fun sub hsub => ?_⟩⟩
    rw [hfault] at hsub
    exact absurd hsub (by simp)
  | @inside _ _ _ sub _ _ item hother hrelation hvalue hitem hsub hinner =>
    obtain rfl := hsame hother
    refine ⟨hrelation, _, hvalue, fun next hnext => ⟨item, hitem, fun other hread => ?_⟩⟩
    obtain rfl := Nat.succ.inj hnext
    rw [hsub] at hread
    exact Except.ok.inj hread ▸ hinner

/-- Inputs that mean rows have no flaw. -/
theorem Meant.not_flawed {inputs : List ConditionInput} {rows : List (Condition σ)}
    (h : Meant root below scope inputs rows) :
    ∀ input ∈ inputs, ¬ Flawed root below scope input := by
  induction h with
  | nil => exact fun _ hmem => absurd hmem List.not_mem_nil
  | plain hfield hvalue _ ih =>
    intro input hmem hflawed
    rcases List.mem_cons.1 hmem with rfl | hmem
    · obtain ⟨hrelation, items, hitems, -⟩ := hflawed.exists_items hfield
      rw [hvalue hrelation] at hitems
      exact absurd hitems (by simp)
    · exact ih input hmem hflawed
  | nested hfield hrelation hvalue hnested _ _ ihinner ihrest =>
    intro input hmem hflawed
    rcases List.mem_cons.1 hmem with rfl | hmem
    · obtain ⟨-, items, hitems, hinside⟩ := hflawed.exists_items hfield
      obtain rfl := Option.some.inj (hvalue.symm.trans hitems)
      obtain ⟨item, hitem, hsub⟩ := hinside _ rfl
      obtain ⟨sub, hmem, hread⟩ := exists_answer_of_mem hnested hitem
      exact ihinner sub hmem (hsub sub hread)
    · exact ihrest input hmem hflawed

/-- Inputs with a fault have a flaw. -/
theorem FirstFault.exists_flawed {inputs : List ConditionInput} {fault : InputFault}
    (h : FirstFault root below scope inputs fault) :
    ∃ input ∈ inputs, Flawed root below scope input := by
  induction h with
  | unknown hfield =>
    exact ⟨_, List.mem_cons_self, .unknown (meantField?_eq_none.1 hfield)⟩
  | tooDeep hfield hrelation hvalue =>
    exact ⟨_, List.mem_cons_self, .tooDeep hfield hrelation hvalue⟩
  | item hfield hrelation hvalue _ hitem =>
    exact ⟨_, List.mem_cons_self, .item hfield hrelation hvalue
      (List.mem_append_right _ List.mem_cons_self) hitem⟩
  | inside hfield hrelation hvalue hitems _ ih =>
    obtain ⟨sub, hsub, hflawed⟩ := ih
    obtain ⟨item, hitem, hread⟩ := exists_mem_of_answer hitems hsub
    exact ⟨_, List.mem_cons_self, .inside hfield hrelation hvalue hitem hread hflawed⟩
  | later _ _ ih =>
    obtain ⟨input, hinput, hflawed⟩ := ih
    exact ⟨input, List.mem_cons_of_mem _ hinput, hflawed⟩

/-- Inputs have a fault if and only if one of them has a flaw. -/
theorem exists_firstFault_iff {inputs : List ConditionInput} :
    (∃ fault, FirstFault root below scope inputs fault) ↔
      ∃ input ∈ inputs, Flawed root below scope input := by
  constructor
  · rintro ⟨fault, hfault⟩
    exact hfault.exists_flawed
  · rintro ⟨input, hinput, hflawed⟩
    refine (decided root below scope inputs).resolve_left ?_
    rintro ⟨rows, hrows⟩
    exact hrows.not_flawed input hinput hflawed

/-- Inputs one after the other mean their rows one after the other. -/
theorem Meant.append {inputs others : List ConditionInput} {rows more : List (Condition σ)}
    (h : Meant root below scope inputs rows) (hothers : Meant root below scope others more) :
    Meant root below scope (inputs ++ others) (rows ++ more) := by
  induction h with
  | nil => exact hothers
  | plain hfield hvalue _ ih => exact .plain hfield hvalue (ih hothers)
  | nested hfield hrelation hvalue hitems hinner _ _ ih =>
    exact .nested hfield hrelation hvalue hitems hinner (ih hothers)

/-- A row is on the field that its input means. -/
theorem Meant.exists_field {inputs : List ConditionInput} {rows : List (Condition σ)}
    (h : Meant root below scope inputs rows) {row : Condition σ} (hrow : row ∈ rows) :
    ∃ input ∈ inputs, ∃ field, row.field? = some field ∧
      meantField? root scope input.field = some field := by
  induction h with
  | nil => exact absurd hrow List.not_mem_nil
  | plain hfield _ _ ih =>
    rcases List.mem_cons.1 hrow with rfl | hrow
    · exact ⟨_, List.mem_cons_self, _, rfl, hfield⟩
    · obtain ⟨other, hother, hmeant⟩ := ih hrow
      exact ⟨other, List.mem_cons_of_mem _ hother, hmeant⟩
  | nested hfield _ _ _ _ _ _ ih =>
    rcases List.mem_cons.1 hrow with rfl | hrow
    · exact ⟨_, List.mem_cons_self, _, rfl, hfield⟩
    · obtain ⟨other, hother, hmeant⟩ := ih hrow
      exact ⟨other, List.mem_cons_of_mem _ hother, hmeant⟩

/-- Inputs without a flaw mean rows. -/
theorem exists_meant {inputs : List ConditionInput}
    (h : ∀ input ∈ inputs, ¬ Flawed root below scope input) :
    ∃ rows, Meant root below scope inputs rows := by
  refine (decided root below scope inputs).resolve_right ?_
  rintro ⟨fault, hfault⟩
  obtain ⟨input, hinput, hflawed⟩ := hfault.exists_flawed
  exact h input hinput hflawed

/-! ### Inputs alike -/

/-- Inputs that differ in identities, operators and values other than arrays only, at any level. -/
inductive Alike : List ConditionInput → List ConditionInput → Prop
  | nil : Alike [] []
  | plain {a b : ConditionInput} {as bs : List ConditionInput} (hfield : a.field = b.field)
      (ha : a.value.items? = none) (hb : b.value.items? = none) (hrest : Alike as bs) :
      Alike (a :: as) (b :: bs)
  | array {a b : ConditionInput} {as bs : List ConditionInput} (hfield : a.field = b.field)
      (hvalue : a.value = b.value) (hrest : Alike as bs) : Alike (a :: as) (b :: bs)
  | nested {a b : ConditionInput} {as bs inner others : List ConditionInput} {xs ys : List Json}
      (hfield : a.field = b.field) (ha : a.value.items? = some xs) (hb : b.value.items? = some ys)
      (hxs : xs.mapM ConditionInput.ofJson = .ok inner)
      (hys : ys.mapM ConditionInput.ofJson = .ok others) (hinner : Alike inner others)
      (hrest : Alike as bs) : Alike (a :: as) (b :: bs)

/-- Inputs are like themselves. -/
theorem Alike.refl (inputs : List ConditionInput) : Alike inputs inputs := by
  induction inputs with
  | nil => exact .nil
  | cons input inputs ih => exact .array rfl rfl ih

/-- Inputs that are alike are so one by one: where one holds no array, neither does the other. -/
theorem Alike.exists_cons {a : ConditionInput} {as others : List ConditionInput}
    (h : Alike (a :: as) others) :
    ∃ b bs, others = b :: bs ∧ a.field = b.field ∧ Alike [a] [b] ∧ Alike as bs ∧
      (a.value.items? = none → b.value.items? = none) := by
  cases h with
  | plain hfield ha hb hrest =>
    exact ⟨_, _, rfl, hfield, .plain hfield ha hb .nil, hrest, fun _ => hb⟩
  | array hfield hvalue hrest =>
    exact ⟨_, _, rfl, hfield, .array hfield hvalue .nil, hrest, hvalue ▸ id⟩
  | nested hfield ha hb hxs hys hinner hrest =>
    refine ⟨_, _, rfl, hfield, .nested hfield ha hb hxs hys hinner .nil, hrest, fun hnone => ?_⟩
    exact absurd (ha.symm.trans hnone) (by simp)

/-- Two inputs alike have arrays of the same items, or of items that are inputs alike. -/
theorem Alike.exists_items {a b : ConditionInput} (h : Alike [a] [b]) {xs : List Json}
    (ha : a.value.items? = some xs) : ∃ ys, b.value.items? = some ys ∧ (xs = ys ∨
      ∃ inner others, xs.mapM ConditionInput.ofJson = .ok inner ∧
        ys.mapM ConditionInput.ofJson = .ok others ∧ Alike inner others) := by
  cases h with
  | plain _ hnone _ _ => exact absurd (ha.symm.trans hnone) (by simp)
  | array _ hvalue _ => exact ⟨xs, hvalue ▸ ha, .inl rfl⟩
  | nested _ hitems hb hxs hys hinner _ =>
    obtain rfl := Option.some.inj (ha.symm.trans hitems)
    exact ⟨_, hb, .inr ⟨_, _, hxs, hys, hinner⟩⟩

/-- Where the items of one are inputs, those of the other are inputs alike. -/
theorem Alike.exists_nested {a b : ConditionInput} (h : Alike [a] [b]) {xs : List Json}
    (ha : a.value.items? = some xs) {nested : List ConditionInput}
    (hnested : xs.mapM ConditionInput.ofJson = .ok nested) :
    ∃ ys others, b.value.items? = some ys ∧ ys.mapM ConditionInput.ofJson = .ok others ∧
      Alike nested others := by
  obtain ⟨ys, hb, rfl | ⟨inner, others, hxs, hys, halike⟩⟩ := h.exists_items ha
  · exact ⟨xs, nested, hb, hnested, .refl nested⟩
  · obtain rfl := Except.ok.inj (hnested.symm.trans hxs)
    exact ⟨ys, others, hb, hys, halike⟩

/-- Inputs alike mean rows together. -/
theorem Alike.exists_meant {inputs others : List ConditionInput} (h : Alike inputs others)
    {rows : List (Condition σ)} (hrows : Meant root below scope inputs rows) :
    ∃ rows', Meant root below scope others rows' := by
  induction hrows generalizing others with
  | nil =>
    cases h
    exact ⟨[], .nil⟩
  | plain hfield hvalue _ ih =>
    obtain ⟨b, bs, rfl, heq, -, hrest, hplain⟩ := h.exists_cons
    obtain ⟨rows', hrows'⟩ := ih hrest
    exact ⟨_, .plain (heq ▸ hfield) (fun hrelation => hplain (hvalue hrelation)) hrows'⟩
  | nested hfield hrelation hvalue hnested _ _ ihinner ihrest =>
    obtain ⟨b, bs, rfl, heq, hhead, hrest, -⟩ := h.exists_cons
    obtain ⟨ys, nested', hitems, hnested', halike⟩ := hhead.exists_nested hvalue hnested
    obtain ⟨inner', hinner'⟩ := ihinner halike
    obtain ⟨rows', hrows'⟩ := ihrest hrest
    exact ⟨_, .nested (heq ▸ hfield) hrelation hitems hnested' hinner' hrows'⟩

/-- One row is meant for each input. -/
theorem Meant.length_eq {inputs : List ConditionInput} {rows : List (Condition σ)}
    (h : Meant root below scope inputs rows) : rows.length = inputs.length := by
  induction h with
  | nil => rfl
  | plain _ _ _ ih => exact congrArg Nat.succ ih
  | nested _ _ _ _ _ _ _ ih => exact congrArg Nat.succ ih

/-- Inputs alike have their first faults together. -/
theorem Alike.firstFault {inputs others : List ConditionInput} (h : Alike inputs others)
    {fault : InputFault} (hfault : FirstFault root below scope inputs fault) :
    FirstFault root below scope others fault := by
  induction hfault generalizing others with
  | unknown hfield =>
    obtain ⟨b, bs, rfl, heq, -⟩ := h.exists_cons
    rw [heq] at hfield ⊢
    exact .unknown hfield
  | tooDeep hfield hrelation hvalue =>
    obtain ⟨b, bs, rfl, heq, hhead, -⟩ := h.exists_cons
    obtain ⟨ys, hitems, -⟩ := hhead.exists_items hvalue
    exact .tooDeep (heq ▸ hfield) hrelation hitems
  | item hfield hrelation hvalue hbefore hitem =>
    obtain ⟨b, bs, rfl, heq, hhead, -⟩ := h.exists_cons
    obtain ⟨ys, hitems, rfl | ⟨inner, -, hread, -⟩⟩ := hhead.exists_items hvalue
    · exact .item (heq ▸ hfield) hrelation hitems hbefore hitem
    · rw [mapM_eq_error hbefore hitem] at hread
      exact absurd hread (by simp)
  | inside hfield hrelation hvalue hnested _ ih =>
    obtain ⟨b, bs, rfl, heq, hhead, -⟩ := h.exists_cons
    obtain ⟨ys, nested', hitems, hnested', halike⟩ := hhead.exists_nested hvalue hnested
    exact .inside (heq ▸ hfield) hrelation hitems hnested' (ih halike)
  | later hrow _ ih =>
    obtain ⟨b, bs, rfl, -, hhead, hrest, -⟩ := h.exists_cons
    obtain ⟨rows', hrows'⟩ := hhead.exists_meant hrow
    obtain ⟨row', rfl⟩ := List.length_eq_one_iff.1 hrows'.length_eq
    exact .later hrows' (ih hrest)

end Relations

/-! ### The outcome of an intake -/

section Outcome

open Lookup Intake

variable {known : Field σ → Prop} {root scope : List (Field σ)} {below : Nat}

/-- Rows are read one after the other. -/
theorem rows_cons (below : Nat) (scope : List (Field σ)) (input : ConditionInput)
    (inputs : List ConditionInput) :
    Intake.rows below scope (input :: inputs) = do
      let row ← Intake.row (Service.nestedRows below) scope input
      let rows ← Intake.rows below scope inputs
      return row :: rows := by
  have hrows : ∀ inputs, Intake.rows below scope inputs =
      inputs.mapM (Intake.row (Service.nestedRows below) scope) := by
    cases below <;> exact fun _ => rfl
  rw [hrows, hrows, List.mapM_cons]

/-- The field that a name means is found. -/
theorem meant_accepts (hu : Universe known) (hroot : ∀ field ∈ root, known field) {name : String}
    {field : Field σ} (h : meantField? root scope name = some field) :
    Accepts known root (Intake.field scope name) field := by
  rw [meantField?] at h
  unfold Intake.field
  cases hfind : scope.find? fun field => field.name == name || field.target == name with
  | some found =>
    rw [hfind, Option.some_or] at h
    exact Option.some.inj h ▸ Accepts.pure found
  | none =>
    rw [hfind, Option.none_or] at h
    have hanswers := Resolver.find_answers hu hroot scope name name
    rw [h] at hanswers
    exact Accepts.bind (Accepts.lift hanswers) (Accepts.pure field)

/-- A name that means no field is refused. -/
theorem meant_refuses (hu : Universe known) (hroot : ∀ field ∈ root, known field) {name : String}
    (h : meantField? root scope name = none) :
    Refuses known root (Intake.field scope name) (.unknownField name) := by
  rw [meantField?, Option.or_eq_none_iff] at h
  obtain ⟨hscope, hlookup⟩ := h
  have hanswers := Resolver.find_answers hu hroot scope name name
  rw [hlookup] at hanswers
  unfold Intake.field
  rw [hscope]
  exact Accepts.bind_refuses (Accepts.lift hanswers) (Refuses.throw _)

/-- The field that is meant by a name is known. -/
theorem known_of_meant (hu : Universe known) (hroot : ∀ field ∈ root, known field)
    (hscope : ∀ field ∈ scope, known field) {name : String} {field : Field σ}
    (h : meantField? root scope name = some field) : known field := by
  rw [meantField?, Option.or_eq_some_iff] at h
  rcases h with h | ⟨-, h⟩
  · exact hscope field (List.mem_of_find?_eq_some h)
  · exact hu.known_of_lookup hroot hscope h

/-- A row is refused with its value. -/
theorem row_refuses_of_value (hu : Universe known) (hroot : ∀ field ∈ root, known field)
    {input : ConditionInput} {field : Field σ}
    (hfield : meantField? root scope input.field = some field)
    {nested : Field σ → List Json → Intake σ (List (Condition σ))} {fault : InputFault}
    (hvalue : Refuses known root (Intake.value nested field input.value) fault) :
    Refuses known root (Intake.row nested scope input) fault := by
  rw [row_eq]
  exact Accepts.bind_refuses (meant_accepts hu hroot hfield) (hvalue.bind _)

omit [Schema σ] in
/-- A value is taken as it is, unless it is an array on a relation. -/
theorem value_plain {field : Field σ} {json : Json}
    (h : field.isRelation = true → json.items? = none)
    (nested : Field σ → List Json → Intake σ (List (Condition σ))) :
    Intake.value nested field json = pure (.ofJson json) := by
  by_cases hrelation : field.isRelation = true
  · have hnone := h hrelation
    unfold Intake.value
    rw [if_pos hrelation]
    cases json with
    | array items => exact absurd hnone (by simp [Json.items?])
    | _ => rfl
  · exact value_scalar (Bool.not_eq_true _ ▸ hrelation) nested json

/-- An array on a relation is accepted with the rows of its items. -/
theorem nestedRows_accepts (hu : Universe known) {field : Field σ} (hfield : known field)
    {items : List Json} {nested : List ConditionInput}
    (hitems : items.mapM ConditionInput.ofJson = .ok nested) {inner : List (Condition σ)}
    (hinner : Accepts known root (Intake.rows below field.below nested) inner) :
    Accepts known root (Service.nestedRows (below + 1) field items) inner := by
  rw [Service.nestedRows, Intake.items, hitems]
  refine Accepts.bind (Accepts.pure nested) (Accepts.bind ?_ hinner)
  exact Accepts.lift (Resolver.relationFields_answers hu hfield)

/-- An array on a relation is refused with the rows of its items. -/
theorem nestedRows_refuses (hu : Universe known) {field : Field σ} (hfield : known field)
    {items : List Json} {nested : List ConditionInput}
    (hitems : items.mapM ConditionInput.ofJson = .ok nested) {fault : InputFault}
    (hinner : Refuses known root (Intake.rows below field.below nested) fault) :
    Refuses known root (Service.nestedRows (below + 1) field items) fault := by
  rw [Service.nestedRows, Intake.items, hitems]
  refine Accepts.bind_refuses (Accepts.pure nested) (Accepts.bind_refuses ?_ hinner)
  exact Accepts.lift (Resolver.relationFields_answers hu hfield)

/-- An input alone is accepted with a value that is no array on a relation. -/
theorem plain_accepts (hu : Universe known) (hroot : ∀ field ∈ root, known field)
    {input : ConditionInput} {field : Field σ}
    (hfield : meantField? root scope input.field = some field)
    (hvalue : field.isRelation = true → input.value.items? = none) :
    Accepts known root (Intake.row (Service.nestedRows below) scope input)
      (.row input.id field input.operator (.ofJson input.value)) := by
  refine Accepts.row (meant_accepts hu hroot hfield) ?_
  rw [value_plain hvalue]
  exact Accepts.pure _

/-- An input alone is accepted with an array on a relation. -/
theorem array_accepts (hu : Universe known) (hroot : ∀ field ∈ root, known field)
    (hscope : ∀ field ∈ scope, known field) {input : ConditionInput} {field : Field σ}
    (hfield : meantField? root scope input.field = some field) (hrelation : field.isRelation = true)
    {items : List Json} (hvalue : input.value.items? = some items) {nested : List ConditionInput}
    (hitems : items.mapM ConditionInput.ofJson = .ok nested) {inner : List (Condition σ)}
    (hinner : Accepts known root (Intake.rows below field.below nested) inner) :
    Accepts known root (Intake.row (Service.nestedRows (below + 1)) scope input)
      (.row input.id field input.operator (.conditions inner)) := by
  have hknown := known_of_meant hu hroot hscope hfield
  refine Accepts.row (meant_accepts hu hroot hfield) ?_
  rw [Json.items?_eq_some.1 hvalue, value_items hrelation]
  exact Accepts.bind (nestedRows_accepts hu hknown hitems hinner) (Accepts.pure _)

/-- The rows that inputs mean are accepted. -/
theorem Meant.accepts (hu : Universe known) (hroot : ∀ field ∈ root, known field)
    (hscope : ∀ field ∈ scope, known field) {inputs : List ConditionInput}
    {rows : List (Condition σ)} (h : Meant root below scope inputs rows) :
    Accepts known root (Intake.rows below scope inputs) rows := by
  induction h with
  | @nil below scope =>
    have hnil : Intake.rows below scope [] = pure [] := by cases below <;> rfl
    rw [hnil]
    exact Accepts.pure []
  | plain hfield hvalue _ ih =>
    rw [rows_cons]
    refine Accepts.bind (plain_accepts hu hroot hfield hvalue) ?_
    exact Accepts.bind (ih hscope) (Accepts.pure _)
  | nested hfield hrelation hvalue hitems _ _ ihinner ihrest =>
    have hinner := ihinner (hu.below (known_of_meant hu hroot hscope hfield))
    rw [rows_cons]
    refine Accepts.bind (array_accepts hu hroot hscope hfield hrelation hvalue hitems hinner) ?_
    exact Accepts.bind (ihrest hscope) (Accepts.pure _)

/-- An input that means a row is read as this row. -/
theorem Meant.row_accepts (hu : Universe known) (hroot : ∀ field ∈ root, known field)
    (hscope : ∀ field ∈ scope, known field) {input : ConditionInput} {row : Condition σ}
    (h : Meant root below scope [input] [row]) :
    Accepts known root (Intake.row (Service.nestedRows below) scope input) row := by
  cases h with
  | plain hfield hvalue _ => exact plain_accepts hu hroot hfield hvalue
  | nested hfield hrelation hvalue hitems hinner _ =>
    have hbelow := hu.below (known_of_meant hu hroot hscope hfield)
    exact array_accepts hu hroot hscope hfield hrelation hvalue hitems
      (hinner.accepts hu hroot hbelow)

/-- Inputs are refused with their first fault. -/
theorem FirstFault.refuses (hu : Universe known) (hroot : ∀ field ∈ root, known field)
    (hscope : ∀ field ∈ scope, known field) {inputs : List ConditionInput} {fault : InputFault}
    (h : FirstFault root below scope inputs fault) :
    Refuses known root (Intake.rows below scope inputs) fault := by
  -- a fault in the array of the first input ends the reading
  have harray : ∀ {below scope input inputs field items fault},
      meantField? root scope input.field = some field → field.isRelation = true →
      input.value.items? = some items →
      Refuses known root (Service.nestedRows below field items) fault →
      Refuses known root (Intake.rows below scope (input :: inputs)) fault := by
    intro below scope input inputs field items fault hfield hrelation hvalue hnested
    rw [rows_cons]
    refine (row_refuses_of_value hu hroot hfield ?_).bind _
    rw [Json.items?_eq_some.1 hvalue, value_items hrelation]
    exact hnested.bind _
  induction h with
  | unknown hfield =>
    rw [rows_cons, row_eq]
    exact ((meant_refuses hu hroot hfield).bind _).bind _
  | tooDeep hfield hrelation hvalue =>
    exact harray hfield hrelation hvalue (Refuses.throw _)
  | item hfield hrelation hvalue hbefore hitem =>
    refine harray hfield hrelation hvalue ?_
    rw [Service.nestedRows, Intake.items, mapM_eq_error hbefore hitem]
    exact (Refuses.throw _).bind _
  | inside hfield hrelation hvalue hitems _ ih =>
    have hknown := known_of_meant hu hroot hscope hfield
    exact harray hfield hrelation hvalue
      (nestedRows_refuses hu hknown hitems (ih (hu.below hknown)))
  | later hrow _ ih =>
    rw [rows_cons]
    exact Accepts.bind_refuses (hrow.row_accepts hu hroot hscope) ((ih hscope).bind _)

end Outcome

end Reading

/-! ### The outcome of the service -/

namespace Service

open Catalog (Scope fields Known)

variable {resource : Resource} {inputs : List ConditionInput}

/-- Inputs that mean rows are compiled to the filter of these rows. -/
theorem compileInputs_of_meant {rows : List (Condition Scope)}
    (h : Meant (fields resource) (relationDepth - 1) (fields resource) inputs rows) :
    compileInputs resource inputs = .ok ⟨compile rows, ((compile rows).map fun filter =>
      Query.serialize .standard "" (.object filter)).getD ""⟩ :=
  compileInputs_eq (h.accepts (Catalog.universe_known resource) Catalog.known_fields
    Catalog.known_fields).run

/-- Inputs with a fault are refused with the one that is met first. -/
theorem compileInputs_of_firstFault {fault : InputFault}
    (h : FirstFault (fields resource) (relationDepth - 1) (fields resource) inputs fault) :
    compileInputs resource inputs = .error fault := by
  have hrun := (h.refuses (Catalog.universe_known resource) Catalog.known_fields
    Catalog.known_fields).run
  have hrows : Intake.run (fields resource) (rowsOfInputs (fields resource) inputs) =
      .error fault := hrun
  simp only [compileInputs, hrows]
  rfl

/-- The service refuses inputs with a fault if and only if it is their first one. -/
theorem compileInputs_eq_error {fault : InputFault} :
    compileInputs resource inputs = .error fault ↔
      FirstFault (fields resource) (relationDepth - 1) (fields resource) inputs fault := by
  constructor
  · intro herror
    rcases decided (fields resource) (relationDepth - 1) (fields resource) inputs with
      ⟨rows, hrows⟩ | ⟨first, hfirst⟩
    · rw [compileInputs_of_meant hrows] at herror
      exact absurd herror (by simp)
    · rw [compileInputs_of_firstFault hfirst] at herror
      exact Except.error.inj herror ▸ hfirst
  · exact compileInputs_of_firstFault

/-- Inputs alike are refused with the same faults. -/
theorem compileInputs_alike {others : List ConditionInput} (h : Alike inputs others)
    (fault : InputFault) :
    compileInputs resource inputs = .error fault ↔
      compileInputs resource others = .error fault := by
  rw [compileInputs_eq_error, compileInputs_eq_error]
  constructor
  · exact h.firstFault
  · intro hfault
    rcases decided (fields resource) (relationDepth - 1) (fields resource) inputs with
      ⟨rows, hrows⟩ | ⟨first, hfirst⟩
    · obtain ⟨rows', hrows'⟩ := h.exists_meant hrows
      have hok := compileInputs_of_meant hrows'
      rw [compileInputs_of_firstFault hfault] at hok
      exact absurd hok (by simp)
    · have herror := compileInputs_of_firstFault (h.firstFault hfirst)
      rw [compileInputs_of_firstFault hfault] at herror
      exact Except.error.inj herror ▸ hfirst

/-- Refusal as a whole.  The service refuses inputs with the fault that is met first, and with no
other one; it refuses them if and only if one of them has a flaw at one of the levels that are read.
Identities, operators and values other than arrays do not matter for that.  If it does not refuse
them it compiles the rows that they mean, at every level one for each input, in order. -/
theorem compileInputs_error_iff (resource : Resource) (inputs : List ConditionInput) :
    (∀ fault, compileInputs resource inputs = .error fault ↔
        FirstFault (fields resource) (relationDepth - 1) (fields resource) inputs fault) ∧
      ((∃ fault, compileInputs resource inputs = .error fault) ↔
        ∃ input ∈ inputs,
          Flawed (fields resource) (relationDepth - 1) (fields resource) input) ∧
      (∀ others, Alike inputs others → ∀ fault,
        compileInputs resource inputs = .error fault ↔
          compileInputs resource others = .error fault) ∧
      ∀ compiled, compileInputs resource inputs = .ok compiled →
        ∃ rows, Meant (fields resource) (relationDepth - 1) (fields resource) inputs rows ∧
          compiled.filter = compile rows := by
  refine ⟨fun _ => compileInputs_eq_error, ?_, fun others h => compileInputs_alike h, ?_⟩
  · rw [← exists_firstFault_iff]
    exact exists_congr fun _ => compileInputs_eq_error
  · intro compiled hok
    rcases decided (fields resource) (relationDepth - 1) (fields resource) inputs with
      ⟨rows, hrows⟩ | ⟨first, hfirst⟩
    · rw [compileInputs_of_meant hrows] at hok
      exact ⟨rows, hrows, congrArg CompiledFilter.filter (Except.ok.inj hok).symm⟩
    · rw [compileInputs_of_firstFault hfirst] at hok
      exact absurd hok (by simp)

/-! ### An example -/

/-- Inputs with two flaws: an unknown field inside the second one, and another one in the third. -/
def flawedInputs (operator : String) : List ConditionInput :=
  [⟨none, "age", operator, .string "18"⟩,
    ⟨none, "company", operator, .array
      [.object [("field", .string "company__name"), ("operator", .string operator)],
        .object [("field", .string "taxes"), ("operator", .string operator)]]⟩,
    ⟨none, "fees", operator, .null⟩]

/-- What the items of the second input are read as. -/
def flawedItems (operator : String) : List ConditionInput :=
  [⟨none, "company__name", operator, .null⟩, ⟨none, "taxes", operator, .null⟩]

/-- The unknown field inside is met first, whatever the operators are. -/
theorem flawedInputs_refused :
    FirstFault (fields .staff) (relationDepth - 1) (fields .staff) (flawedInputs "")
        (.unknownField "taxes") ∧
      compileInputs .staff (flawedInputs "") = .error (.unknownField "taxes") ∧
      Alike (flawedInputs "") (flawedInputs "em") ∧
      compileInputs .staff (flawedInputs "em") = .error (.unknownField "taxes") := by
  have hage : meantField? (fields .staff) (fields .staff) "age" =
      some (.scalar .number "age" "Idade") := rfl
  have hcompany : meantField? (fields .staff) (fields .staff) "company" =
      some Catalog.companyField := rfl
  have hname : meantField? (fields .staff) Catalog.companyField.below "company__name" =
      some (.scalar .text "company__name" "Nome") := rfl
  have htaxes : meantField? (fields .staff) Catalog.companyField.below "taxes" = none := rfl
  have hitems : ∀ operator, [Json.object [("field", .string "company__name"),
      ("operator", .string operator)], .object [("field", .string "taxes"),
        ("operator", .string operator)]].mapM ConditionInput.ofJson =
          .ok (flawedItems operator) := fun _ => rfl
  have hinside : FirstFault (fields .staff) 1 Catalog.companyField.below (flawedItems "")
      (.unknownField "taxes") :=
    .later (.plain hname (fun _ => rfl) .nil) (.unknown htaxes)
  have hfault : FirstFault (fields .staff) (relationDepth - 1) (fields .staff) (flawedInputs "")
      (.unknownField "taxes") :=
    .later (.plain hage (fun _ => rfl) .nil) (.inside hcompany rfl rfl (hitems "") hinside)
  have hothers : Alike (flawedInputs "") (flawedInputs "em") :=
    .plain rfl rfl rfl (.nested rfl rfl rfl (hitems "") (hitems "em")
      (.plain rfl rfl rfl (.plain rfl rfl rfl .nil)) (.plain rfl rfl rfl .nil))
  obtain ⟨hfirst, -, halike, -⟩ := compileInputs_error_iff .staff (flawedInputs "")
  have herror := (hfirst _).2 hfault
  exact ⟨hfault, herror, hothers, (halike _ hothers _).1 herror⟩

end Service

end QueryFilter
