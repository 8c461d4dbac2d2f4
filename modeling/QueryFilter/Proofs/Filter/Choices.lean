import QueryFilter.Proofs.Condition.Compatible
import QueryFilter.Proofs.Filter.Compile
import QueryFilter.Proofs.Filter.Scalar

/-!
# Compiling the choices on a scalar field again

Choices on a scalar field are compiled to one object of operators, `written`, and restored from it,
`chosen`.  Without two bounds the operators are those of the choices, in order, and the same choices
are restored (`chosen_written`).
-/

namespace QueryFilter

open Compile Restore Json

variable {σ : Type} {type : FieldType} {choices : List (Operator × Value σ)}

/-- What a choice writes. -/
def Compile.fragmentOf? (type : FieldType) (choice : Operator × Value σ) : Option Object :=
  scalarFragment? type choice.1 choice.2

/-- The operators that choices on one field are compiled to. -/
def Compile.written (type : FieldType) (choices : List (Operator × Value σ)) : Object :=
  united (choices.filterMap (fragmentOf? type))

/-- The choices that are restored from operators. -/
def Restore.chosen (type : FieldType) (operators : Object) : List (Operator × Value σ) :=
  (scalarRows type (.object operators)).filterMap fun row =>
    (type.operator? row.1).map fun operator => (operator, row.2)

/-- The operators that choices are compiled to after they were restored from operators. -/
def Compile.writtenAgain (type : FieldType) (choices : List (Operator × Value σ)) : Object :=
  written type (chosen type (written type choices) : List (Operator × Value σ))

/-! ### Fragments -/

/-- A choice other than a range writes its operator. -/
theorem fragmentOf?_of_ne {choice : Operator × Value σ}
    (h : CanonicalValue type choice.1 choice.2) (hne : choice.1 ≠ .between) :
    fragmentOf? type choice =
      some (single choice.1 (operandOf type choice.2) ++ modeEntries type) :=
  scalarFragment?_of_ne h hne

/-- The keys of what choices write, without the mode. -/
theorem mem_keys_plain {operator : Operator} {operand : Json} {key : String} (h : key ≠ modeKey) :
    key ∈ Entries.keys (single operator operand ++ modeEntries type) ↔ key = operator.word := by
  unfold modeEntries single
  split <;> simp [h]

/-- Canonical choices write something. -/
theorem written_ne_nil
    (hoffered : ∀ choice ∈ choices, choice.1 ∈ type.specs.map OperatorSpec.operator)
    (hcanonical : ∀ choice ∈ choices, CanonicalValue type choice.1 choice.2) (hne : choices ≠ []) :
    written type choices ≠ [] := by
  obtain ⟨choice, hchoice⟩ := List.exists_mem_of_ne_nil choices hne
  obtain ⟨part, hpart, key, hkey⟩ : ∃ part, fragmentOf? type choice = some part ∧
      ∃ key, key ∈ Entries.keys part := by
    by_cases hoperator : choice.1 = .between
    · obtain ⟨operator, value⟩ := choice
      obtain ⟨spec, hspec, rfl⟩ := List.mem_map.1 (hoffered _ hchoice)
      obtain ⟨lower, upper, rfl, hlower, hupper⟩ :=
        CanonicalValue.exists_range hspec hoperator (hcanonical _ hchoice)
      have hrange := scalarFragment?_range (σ := σ) hlower hupper
      rw [← hoperator] at hrange
      exact ⟨_, hrange, _, List.mem_cons_self⟩
    · exact ⟨_, fragmentOf?_of_ne (hcanonical _ hchoice) hoperator, _, List.mem_cons_self⟩
  have hwritten : key ∈ Entries.keys (written type choices) :=
    Entries.mem_keys_foldl_extend.2
      (.inr ⟨part, List.mem_filterMap.2 ⟨choice, hchoice, hpart⟩, hkey⟩)
  intro hnil
  rw [hnil] at hwritten
  exact absurd hwritten List.not_mem_nil

/-! ### Without a range -/

section Plain

/-- Choices with different operators stand in order among what was written before, apart from the
mode. -/
theorem without_foldl_extend (hnodup : (choices.map Prod.fst).Nodup) {entries : Object}
    (hnew : ∀ choice ∈ choices, choice.1.word ∉ Entries.keys entries) :
    Entries.without modeKey ((choices.map fun choice => single choice.1 (operandOf type choice.2) ++
        modeEntries type).foldl Entries.extend entries) =
      Entries.without modeKey entries ++
        choices.map fun choice => (choice.1.word, operandOf type choice.2) := by
  induction choices generalizing entries with
  | nil => simp
  | cons choice choices ih =>
    obtain ⟨hchoice, hrest⟩ := List.nodup_cons.1 hnodup
    have hfirst : choice.1.word ∉ Entries.keys entries := hnew choice List.mem_cons_self
    -- each choice of a text writes the mode, which is the same every time
    have hmode : ∀ object : Object, Entries.without modeKey
        (Entries.extend object (modeEntries type)) = Entries.without modeKey object := by
      intro object
      unfold modeEntries
      split
      · rw [Entries.extend_cons, Entries.extend_nil, Entries.without_insert]
      · rfl
    have hkept : Entries.without modeKey [(choice.1.word, operandOf type choice.2)] =
        [(choice.1.word, operandOf type choice.2)] := by
      simp [Entries.without, word_ne_modeKey]
    rw [List.map_cons, List.foldl_cons, ih hrest]
    · rw [single, Entries.extend_append, hmode, Entries.extend_cons, Entries.extend_nil,
        Entries.insert, Entries.alter_of_not_mem hfirst, Entries.without_append, hkept,
        List.append_assoc, List.singleton_append, List.map_cons]
    · intro other hother hkey
      rw [Entries.mem_keys_extend, mem_keys_plain (word_ne_modeKey _)] at hkey
      rcases hkey with hkey | hkey
      · exact hnew other (List.mem_cons_of_mem _ hother) hkey
      · have heq := Operator.word_injective hkey
        exact hchoice (heq ▸ List.mem_map_of_mem hother)

/-- Without ranges the operators are those of the choices, in order, apart from the mode. -/
theorem without_written (h : CompatibleChoices type choices)
    (hcanonical : ∀ choice ∈ choices, CanonicalValue type choice.1 choice.2)
    (hplain : ∀ choice ∈ choices, choice.1 ≠ .between) :
    Entries.without modeKey (written type choices) =
      choices.map fun choice => (choice.1.word, operandOf type choice.2) := by
  have hfragments : choices.filterMap (fragmentOf? type) = choices.map fun choice =>
      single choice.1 (operandOf type choice.2) ++ modeEntries type := by
    clear h
    induction choices with
    | nil => rfl
    | cons choice choices ih =>
      have hfirst := fragmentOf?_of_ne (hcanonical choice List.mem_cons_self)
        (hplain choice List.mem_cons_self)
      rw [List.filterMap_cons_some hfirst, List.map_cons,
        ih (fun c hc => hcanonical c (List.mem_cons_of_mem _ hc))
          fun c hc => hplain c (List.mem_cons_of_mem _ hc)]
  rw [written, hfragments, united, without_foldl_extend h.nodup fun _ _ => List.not_mem_nil]
  rfl

/-- Without two bounds the choices are restored as they are. -/
theorem chosen_written (h : CompatibleChoices type choices)
    (hcanonical : ∀ choice ∈ choices, CanonicalValue type choice.1 choice.2)
    (hbounds : ¬ HasBounds choices) : chosen type (written type choices) = choices := by
  have hplain : ∀ choice ∈ choices, choice.1 ≠ .between := by
    intro choice hchoice heq
    exact hbounds (.inl ⟨choice.2, heq ▸ hchoice⟩)
  have hwithout := without_written h hcanonical hplain
  have hmem : ∀ operator : Operator, operator.word ∈ Entries.keys (written type choices) →
      ∃ value, (operator, value) ∈ choices := by
    intro operator hkey
    rw [← Entries.mem_keys_without (word_ne_modeKey operator), hwithout] at hkey
    obtain ⟨operand, hentry⟩ := Entries.mem_keys.1 hkey
    obtain ⟨choice, hchoice, heq⟩ := List.mem_map.1 hentry
    have hoperator := Operator.word_injective (Prod.mk.inj heq).1
    exact ⟨choice.2, hoperator ▸ hchoice⟩
  have hrange : (range? type (written type choices) : Option (String × Value σ)) = none := by
    refine range?_eq_none ?_
    rw [Entries.get?_eq_none, Entries.get?_eq_none]
    by_cases hgte : Operator.gte.word ∈ Entries.keys (written type choices)
    · exact .inr fun hlte => hbounds (.inr ⟨hmem _ hgte, hmem _ hlte⟩)
    · exact .inl hgte
  rw [chosen, scalarRows_singles hrange, ← Entries.filterMap_without (single?_modeKey type),
    hwithout, List.filterMap_filterMap]
  -- the choices are read back one by one; what was known of all of them is used up
  clear hwithout hmem hrange hbounds
  have hoffered := h.offered
  clear h
  induction choices with
  | nil => rfl
  | cons choice choices ih =>
    obtain ⟨operator, value⟩ := choice
    obtain ⟨spec, hspec, rfl⟩ := List.mem_map.1 (hoffered _ List.mem_cons_self)
    have hvalue := (valueOf_operandOf (hoffered _ List.mem_cons_self)
      (hcanonical _ List.mem_cons_self) (hplain _ List.mem_cons_self) .standard).1
    rw [List.map_cons, List.filterMap_cons_some (b := (spec.operator, value)),
      ih (fun c hc => hcanonical c (List.mem_cons_of_mem _ hc))
        (fun c hc => hplain c (List.mem_cons_of_mem _ hc))
        fun c hc => hoffered c (List.mem_cons_of_mem _ hc)]
    rw [single?_word hspec, Option.bind_some, FieldType.operator?_label hspec, Option.map_some,
      hvalue]

end Plain

end QueryFilter
