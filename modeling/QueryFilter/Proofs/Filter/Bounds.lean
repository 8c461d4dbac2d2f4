import QueryFilter.Proofs.Filter.Choices
import QueryFilter.Proofs.Json.Same

/-!
# Two bounds on a field

From operators with a lower and an upper bound a single range is restored, whatever stands beside
the bounds.  The range has the two bounds in one text, which is split again at its first comma; it
is compiled to the bounds it was restored from if and only if they fit (`exists_ends`).

So choices with two bounds are compiled to the same operators again if and only if nothing stands
beside the bounds and the bounds fit (`same_written_iff`).
-/

namespace QueryFilter

open Compile Restore

variable {σ : Type} {type : FieldType} {choices : List (Operator × Value σ)}

/-! ### Texts of bounds -/

/-- A text that is shown for a bound as it is edited. -/
def CanonicalBound (type : FieldType) (s : String) : Prop :=
  match type with
  | .number => Operand.IsCanonicalNumber s
  | .date => Operand.IsCanonicalDate s
  | _ => False

/-- Bounds are numbers or dates. -/
theorem CanonicalBound.type_eq {s : String} (h : CanonicalBound type s) :
    type = .number ∨ type = .date := by
  cases type with
  | number => exact .inl rfl
  | date => exact .inr rfl
  | _ => exact absurd h id

/-- The end of a range is a bound. -/
theorem RangeEnd.canonicalBound {s : String} (h : RangeEnd type s) : CanonicalBound type s := by
  have hcanonical := h.canonical
  rcases h.type_eq with rfl | rfl
  · exact hcanonical
  · exact Operand.IsWholeDay.isCanonicalDate hcanonical

/-- Two ends of a range fit. -/
theorem RangeEnd.boundsFit {lower upper : String} (hlower : RangeEnd type lower)
    (hupper : RangeEnd type upper) : BoundsFit type lower upper := by
  have hcanonical := hlower.canonical
  have hcanonical' := hupper.canonical
  rcases hlower.type_eq with rfl | rfl
  · exact ⟨hlower.no_comma, ⟨hlower.trimmed, hlower.ne_empty⟩, ⟨hupper.trimmed, hupper.ne_empty⟩⟩
  · exact ⟨hcanonical, hcanonical'⟩

/-- A bound is a number or a text. -/
theorem boundJson_scalar (type : FieldType) (s : String) :
    (∃ n, boundJson type s = .number n) ∨ ∃ t, boundJson type s = .string t := by
  cases type <;> first | exact Operand.numberJson_scalar s | exact .inr ⟨_, rfl⟩

/-! ### The bounds of a range -/

/-- The bounds that are written for two ends of a range. -/
def Compile.boundsOf (type : FieldType) (lower upper : String) : Object :=
  ((bound? type (some lower)).map fun operand => (Operator.gte.word, operand)).toList ++
    ((bound? type (some upper)).map fun operand => (Operator.lte.word, operand)).toList

/-- At the two operators stand the bounds of the two ends. -/
theorem get?_boundsOf (type : FieldType) (lower upper : String) :
    Entries.get? (boundsOf type lower upper) Operator.gte.word = bound? type (some lower) ∧
      Entries.get? (boundsOf type lower upper) Operator.lte.word = bound? type (some upper) := by
  unfold boundsOf
  cases bound? type (some lower) <;> cases bound? type (some upper) <;>
    simp [Entries.get?_cons, Operator.word]

/-- Two ends write no other operators than those of bounds. -/
theorem eq_of_mem_keys_boundsOf {lower upper key : String}
    (h : key ∈ Entries.keys (boundsOf type lower upper)) :
    key = Operator.gte.word ∨ key = Operator.lte.word := by
  unfold boundsOf at h
  cases hlower : bound? type (some lower) <;> cases hupper : bound? type (some upper) <;>
    simp_all

/-- Two ends write each bound at most once. -/
theorem distinct_boundsOf (type : FieldType) (lower upper : String) :
    Entries.Distinct (boundsOf type lower upper) := by
  unfold boundsOf Entries.Distinct
  cases bound? type (some lower) <;> cases bound? type (some upper) <;> simp [Operator.word]

/-- A range writes the bounds of its two ends. -/
theorem written_range (htype : type = .number ∨ type = .date) {lower : String}
    (hlower : ',' ∉ lower.toList) (upper : String) :
    written type [(.between, (.text (lower ++ "," ++ upper) : Value σ))] =
      boundsOf type lower upper := by
  have hfragment : fragmentOf? type (.between, (.text (lower ++ "," ++ upper) : Value σ)) =
      rangeFragment? type (.text (lower ++ "," ++ upper) : Value σ) := by
    rcases htype with rfl | rfl
    · rw [fragmentOf?, scalarFragment?, if_pos rfl]
    · rw [fragmentOf?, scalarFragment?, if_pos rfl]
  have hrange : rangeFragment? type (.text (lower ++ "," ++ upper) : Value σ) =
      if (boundsOf type lower upper).isEmpty then none else some (boundsOf type lower upper) := by
    rw [rangeFragment?, rangeEnds_text hlower]
    rfl
  rw [written, List.filterMap_cons, hfragment, hrange]
  cases hempty : boundsOf type lower upper with
  | nil => rfl
  | cons entry entries =>
    have hdistinct := distinct_boundsOf type lower upper
    rw [hempty] at hdistinct
    exact Entries.extend_nil_left hdistinct

/-! ### Bounds from the text of a range -/

/-- A canonical number is written as a bound again if and only if it is a whole text. -/
theorem bound?_number_iff {s : String} (h : Operand.IsCanonicalNumber s) :
    bound? .number (some s) = some (boundJson .number s) ↔ IsWholeText s := by
  rw [bound?_eq_some]
  constructor
  · rintro ⟨hne, hbound⟩
    have htrim := h.trim_eq hbound
    rw [htrim] at hne
    exact ⟨htrim, hne⟩
  · rintro ⟨htrim, hne⟩
    rw [htrim]
    exact ⟨hne, rfl⟩

/-- A part of a canonical text before its comma is not written as the bound that was there. -/
theorem bound?_ne_of_comma {s part : String} (h : Operand.IsCanonicalNumber s)
    (hs : ',' ∈ s.toList) (hpart : ',' ∉ part.toList) :
    bound? .number (some part) ≠ some (boundJson .number s) := by
  intro hbound
  have hjson : boundJson .number s = .string s := by
    change Operand.numberJson s = .string s
    rw [Operand.numberJson, h.number?_eq_none hs (by decide)]
    rfl
  rw [hjson] at hbound
  have htext : Text.trim part = s := Operand.eq_of_numberJson (bound?_eq_some.1 hbound).2
  refine hpart (Text.mem_of_mem_trimChars ?_)
  rw [← Text.toList_trim, htext]
  exact hs

/-- A day is written as its beginning. -/
theorem bound?_dateText {date : Calendar.Date} (h : date.FourDigits) :
    bound? .date (some date.text) = some (.string (Calendar.Instant.startOf date).text) := by
  rw [bound?_eq_some, Calendar.Date.trim_text h]
  refine ⟨Calendar.Date.text_ne_empty h, ?_⟩
  rw [boundJson_date, Operand.dateJson, Operand.instantText?_dateText h, Option.getD_some]

/-- A text with a comma is split there, also if another text follows. -/
theorem exists_before_comma {a : String} (h : ',' ∈ a.toList) (b : String) :
    ∃ before after : String, ',' ∉ before.toList ∧
      a ++ "," ++ b = before ++ "," ++ (after ++ "," ++ b) := by
  obtain ⟨before, after, hchars, hbefore⟩ := List.eq_append_cons_of_mem h
  refine ⟨String.ofList before, String.ofList after, ?_, ?_⟩
  · rwa [String.toList_ofList]
  · apply String.toList_inj.1
    simp [String.toList_append, hchars]

/-- A canonical date is shown as a day, which is written as the bound that was there if and only if
the date has no time of day. -/
theorem bound?_date_iff {s : String} (h : Operand.IsCanonicalDate s) :
    ∃ day : String, endpoint .date (boundJson .date s) = day ∧ ',' ∉ day.toList ∧
      (bound? .date (some day) = some (boundJson .date s) ↔ Operand.IsWholeDay s) := by
  obtain ⟨i, hparse, hyear, hshort⟩ := id h
  have hjson : boundJson .date s = .string i.text := by
    rw [boundJson_date, Operand.dateJson, Operand.instantText?, hparse]
    rfl
  refine ⟨i.date.text, ?_, Calendar.Date.comma_not_mem_text hyear, ?_⟩
  · rw [hjson, endpoint, Json.plainText_string, Operand.dateText?,
      Operand.parse?_text_of_canonical hparse hyear hshort]
    rfl
  · rw [bound?_dateText hyear, hjson, h.isWholeDay_iff hparse, Option.some_inj,
      Json.string.injEq]

/-- The text of a range that is restored from two bounds has two ends, which are written as these
bounds if and only if the bounds fit. -/
theorem exists_ends {lower upper : String} (hlower : CanonicalBound type lower)
    (hupper : CanonicalBound type upper) :
    ∃ a b : String, endpoint type (boundJson type lower) ++ "," ++
        endpoint type (boundJson type upper) = a ++ "," ++ b ∧ ',' ∉ a.toList ∧
      (bound? type (some a) = some (boundJson type lower) ∧
        bound? type (some b) = some (boundJson type upper) ↔ BoundsFit type lower upper) := by
  rcases hlower.type_eq with rfl | rfl
  · have hshown : ∀ s, Operand.IsCanonicalNumber s → endpoint .number (boundJson .number s) = s :=
      fun s hs => hs.plainText_numberJson
    rw [hshown lower hlower, hshown upper hupper]
    by_cases hcomma : ',' ∈ lower.toList
    · -- the text is split at the comma inside the lower bound
      obtain ⟨before, after, hbefore, heq⟩ := exists_before_comma hcomma upper
      refine ⟨before, after ++ "," ++ upper, heq, hbefore, ?_⟩
      constructor
      · rintro ⟨hbound, -⟩
        exact absurd hbound (bound?_ne_of_comma hlower hcomma hbefore)
      · rintro ⟨hfree, -⟩
        exact absurd hcomma hfree
    · refine ⟨lower, upper, rfl, hcomma, ?_⟩
      rw [bound?_number_iff hlower, bound?_number_iff hupper]
      exact ⟨fun h => ⟨hcomma, h⟩, fun h => h.2⟩
  · obtain ⟨a, ha, hcomma, hfirst⟩ := bound?_date_iff hlower
    obtain ⟨b, hb, -, hsecond⟩ := bound?_date_iff hupper
    refine ⟨a, b, by rw [ha, hb], hcomma, ?_⟩
    rw [hfirst, hsecond]
    exact Iff.rfl

/-! ### Choices with two bounds -/

/-- A choice where two bounds are chosen: both at once, one of them, or what stands beside them. -/
inductive BoundChoice (type : FieldType) (lower upper : String) : Operator × Value σ → Prop
  | range (hlower : RangeEnd type lower) (hupper : RangeEnd type upper) :
      BoundChoice type lower upper (.between, .text (lower ++ "," ++ upper))
  | lower : BoundChoice type lower upper (.gte, .text lower)
  | upper : BoundChoice type lower upper (.lte, .text upper)
  | beside (value : Value σ) : BoundChoice type lower upper (.differs, value)

/-- Choices that consist of two bounds, and of what stands beside them. -/
structure Bounded (type : FieldType) (choices : List (Operator × Value σ))
    (lower upper : String) : Prop where
  canonical_lower : CanonicalBound type lower
  canonical_upper : CanonicalBound type upper
  choice : ∀ choice ∈ choices, BoundChoice type lower upper choice
  both : (.between, .text (lower ++ "," ++ upper)) ∈ choices ∨
    (.gte, .text lower) ∈ choices ∧ (.lte, .text upper) ∈ choices
  kept : ChoicesKept type choices ↔
    (∀ value, (.differs, value) ∉ choices) ∧ BoundsFit type lower upper

/-- Only what is to be different may stand beside a range. -/
theorem eq_differs_of_between (htype : type = .number ∨ type = .date) {operator : Operator}
    (hoffered : operator ∈ type.specs.map OperatorSpec.operator)
    (h : Operator.between.excludes type operator = false) : operator = .differs := by
  revert operator
  rcases htype with rfl | rfl <;> decide

/-- Only what is to be different may stand beside a lower and an upper bound. -/
theorem eq_differs_of_bounds (htype : type = .number ∨ type = .date) {operator : Operator}
    (hoffered : operator ∈ type.specs.map OperatorSpec.operator)
    (hlower : Operator.gte.excludes type operator = false)
    (hupper : Operator.lte.excludes type operator = false) : operator = .differs := by
  revert operator
  rcases htype with rfl | rfl <;> decide

/-- The value of a single bound is a canonical text. -/
theorem CanonicalValue.exists_bound {operator : Operator} {value : Value σ}
    (hoffered : operator ∈ type.specs.map OperatorSpec.operator)
    (hoperator : operator = .gte ∨ operator = .lte) (h : CanonicalValue type operator value) :
    ∃ s, value = .text s ∧ CanonicalBound type s := by
  have htypes : ∀ operator ∈ type.specs.map OperatorSpec.operator,
      operator = .gte ∨ operator = .lte → type = .number ∨ type = .date := by
    cases type <;> decide
  rcases htypes operator hoffered hoperator with rfl | rfl
  · cases h with
    | number _ hs => exact ⟨_, rfl, hs⟩
    | range _ _ => rcases hoperator with h | h <;> exact absurd h (by decide)
  · cases h with
    | date _ hs => exact ⟨_, rfl, hs⟩
    | range _ _ => rcases hoperator with h | h <;> exact absurd h (by decide)

/-- Compatible canonical choices with two bounds consist of them and of what stands beside them. -/
theorem exists_bounded (h : CompatibleChoices type choices)
    (hcanonical : ∀ choice ∈ choices, CanonicalValue type choice.1 choice.2)
    (hbounds : HasBounds choices) : ∃ lower upper, Bounded type choices lower upper := by
  obtain ⟨value, hmem⟩ | ⟨⟨v, hgte⟩, ⟨w, hlte⟩⟩ := id hbounds
  · -- a range is chosen, which excludes everything but `differs`
    obtain ⟨spec, hspec, hoperator⟩ := List.mem_map.1 (h.offered _ hmem)
    obtain ⟨lower, upper, rfl, hlower, hupper⟩ :=
      CanonicalValue.exists_range hspec hoperator (hoperator ▸ hcanonical _ hmem)
    have hchoice : ∀ choice ∈ choices, choice = (.between, .text (lower ++ "," ++ upper)) ∨
        choice.1 = .differs := by
      intro choice hchoice
      rcases h.not_excludes hmem hchoice with heq | hexcludes
      · exact .inl heq.symm
      · exact .inr (eq_differs_of_between hlower.type_eq (h.offered _ hchoice) hexcludes)
    refine ⟨lower, upper, hlower.canonicalBound, hupper.canonicalBound, ?_, .inl hmem, ?_⟩
    · rintro ⟨operator, value⟩ hmem'
      rcases hchoice _ hmem' with heq | heq
      · rw [heq]
        exact .range hlower hupper
      · obtain rfl : operator = .differs := heq
        exact .beside value
    · constructor
      · intro hkept
        exact ⟨hkept.alone hbounds, hlower.boundsFit hupper⟩
      · rintro ⟨halone, -⟩
        refine ⟨fun _ => halone, fun a b ha _ => ?_⟩
        rcases hchoice _ ha with heq | heq
        · exact absurd (Prod.mk.inj heq).1 (by decide)
        · exact absurd heq (by simp)
  · -- two bounds are chosen one by one
    obtain ⟨lower, rfl, hlower⟩ := (hcanonical _ hgte).exists_bound (h.offered _ hgte) (.inl rfl)
    obtain ⟨upper, rfl, hupper⟩ := (hcanonical _ hlte).exists_bound (h.offered _ hlte) (.inr rfl)
    refine ⟨lower, upper, hlower, hupper, ?_, .inr ⟨hgte, hlte⟩, ?_⟩
    · rintro ⟨operator, value⟩ hmem
      rcases h.not_excludes hgte hmem with heq | hexcludes
      · rw [← heq]
        exact .lower
      · rcases h.not_excludes hlte hmem with heq | hexcludes'
        · rw [← heq]
          exact .upper
        · obtain rfl : operator = .differs :=
            eq_differs_of_bounds hlower.type_eq (h.offered _ hmem) hexcludes hexcludes'
          exact .beside value
    · constructor
      · intro hkept
        exact ⟨hkept.alone hbounds, hkept.whole _ _ hgte hlte⟩
      · rintro ⟨halone, hfit⟩
        refine ⟨fun _ => halone, fun a b ha hb => ?_⟩
        obtain rfl := Value.text.inj (h.value_eq ha hgte)
        obtain rfl := Value.text.inj (h.value_eq hb hlte)
        exact hfit

/-! ### What choices with two bounds are compiled to -/

section Written

variable {lower upper : String}

/-- What a choice writes where two bounds are chosen. -/
def boundPart (type : FieldType) (lower upper : String) (choice : Operator × Value σ) : Object :=
  match choice.1 with
  | .between => boundsFragment (boundJson type lower) (boundJson type upper)
  | _ => single choice.1 (operandOf type choice.2)

/-- A choice beside two bounds writes its part of them. -/
theorem fragmentOf?_bound (htype : type = .number ∨ type = .date)
    {choice : Operator × Value σ} (h : BoundChoice type lower upper choice)
    (hcanonical : CanonicalValue type choice.1 choice.2) :
    fragmentOf? type choice = some (boundPart type lower upper choice) := by
  have hmode : modeEntries type = [] := by rcases htype with rfl | rfl <;> rfl
  have hplain := fragmentOf?_of_ne hcanonical
  rw [hmode, List.append_nil] at hplain
  cases h with
  | range hlower hupper => exact scalarFragment?_range hlower hupper
  | lower => exact hplain (by simp)
  | upper => exact hplain (by simp)
  | beside value => exact hplain (by simp)

/-- The operand of a number or a date is its bound. -/
theorem operandOf_text (htype : type = .number ∨ type = .date) (s : String) :
    operandOf type (.text s : Value σ) = boundJson type s := by
  rcases htype with rfl | rfl <;> rfl

/-- A part of two bounds has each operator at most once. -/
theorem distinct_boundPart {choice : Operator × Value σ}
    (h : BoundChoice type lower upper choice) :
    Entries.Distinct (boundPart type lower upper choice) := by
  unfold Entries.Distinct
  cases h <;> simp [boundPart, boundsFragment, single, Operator.word]

/-- The entries that choices write where two bounds are chosen. -/
theorem mem_boundPart (htype : type = .number ∨ type = .date) {choice : Operator × Value σ}
    (h : BoundChoice type lower upper choice) {key : String} {operand : Json}
    (hmem : (key, operand) ∈ boundPart type lower upper choice) :
    (key = Operator.gte.word ∧ operand = boundJson type lower) ∨
      (key = Operator.lte.word ∧ operand = boundJson type upper) ∨
        (key = Operator.differs.word ∧ choice.1 = .differs) := by
  cases h with
  | range =>
    rcases List.mem_cons.1 hmem with heq | hmem
    · exact .inl (Prod.mk.inj heq)
    · exact .inr (.inl (Prod.mk.inj (List.mem_singleton.1 hmem)))
  | lower =>
    obtain ⟨rfl, rfl⟩ := Prod.mk.inj (List.mem_singleton.1 hmem)
    exact .inl ⟨rfl, operandOf_text htype lower⟩
  | upper =>
    obtain ⟨rfl, rfl⟩ := Prod.mk.inj (List.mem_singleton.1 hmem)
    exact .inr (.inl ⟨rfl, operandOf_text htype upper⟩)
  | beside value =>
    obtain ⟨rfl, -⟩ := Prod.mk.inj (List.mem_singleton.1 hmem)
    exact .inr (.inr ⟨rfl, rfl⟩)

/-- Two bounds are chosen for numbers or dates. -/
theorem Bounded.type_eq (h : Bounded type choices lower upper) : type = .number ∨ type = .date :=
  h.canonical_lower.type_eq

/-- Such choices write their parts one after the other. -/
theorem Bounded.written_eq (h : Bounded type choices lower upper)
    (hcanonical : ∀ choice ∈ choices, CanonicalValue type choice.1 choice.2) :
    written type choices = (choices.map (boundPart type lower upper)).foldl Entries.extend [] := by
  have hparts : choices.filterMap (fragmentOf? type) =
      choices.map (boundPart type lower upper) := by
    rw [← List.filterMap_eq_map]
    refine List.filterMap_congr fun choice hchoice => ?_
    exact fragmentOf?_bound h.type_eq (h.choice _ hchoice) (hcanonical _ hchoice)
  rw [written, united, hparts]

/-- Choices with two bounds are compiled to the bounds. -/
theorem Bounded.get?_written (h : Bounded type choices lower upper)
    (hcanonical : ∀ choice ∈ choices, CanonicalValue type choice.1 choice.2) :
    Entries.get? (written type choices) Operator.gte.word = some (boundJson type lower) ∧
      Entries.get? (written type choices) Operator.lte.word = some (boundJson type upper) := by
  have hdistinct : ∀ part ∈ choices.map (boundPart type lower upper), Entries.Distinct part := by
    intro part hpart
    obtain ⟨choice, hchoice, rfl⟩ := List.mem_map.1 hpart
    exact distinct_boundPart (h.choice _ hchoice)
  -- no part writes another value at a bound, and at least one writes each
  rw [h.written_eq hcanonical]
  constructor
  · refine Entries.get?_foldl_extend hdistinct (fun part hpart w hw => ?_) (.inr ?_)
    · obtain ⟨choice, hchoice, rfl⟩ := List.mem_map.1 hpart
      obtain ⟨-, heq⟩ | ⟨hkey, -⟩ | ⟨hkey, -⟩ :=
        mem_boundPart h.type_eq (h.choice _ hchoice) (Entries.mem_of_get? hw)
      · exact heq
      · exact absurd hkey (by decide)
      · exact absurd hkey (by decide)
    · rcases h.both with hmem | ⟨hmem, -⟩
      · exact ⟨_, List.mem_map_of_mem hmem, List.mem_cons_self⟩
      · exact ⟨_, List.mem_map_of_mem hmem, List.mem_cons_self⟩
  · refine Entries.get?_foldl_extend hdistinct (fun part hpart w hw => ?_) (.inr ?_)
    · obtain ⟨choice, hchoice, rfl⟩ := List.mem_map.1 hpart
      obtain ⟨hkey, -⟩ | ⟨-, heq⟩ | ⟨hkey, -⟩ :=
        mem_boundPart h.type_eq (h.choice _ hchoice) (Entries.mem_of_get? hw)
      · exact absurd hkey (by decide)
      · exact heq
      · exact absurd hkey (by decide)
    · rcases h.both with hmem | ⟨-, hmem⟩
      · exact ⟨_, List.mem_map_of_mem hmem, List.mem_cons_of_mem _ List.mem_cons_self⟩
      · exact ⟨_, List.mem_map_of_mem hmem, List.mem_cons_self⟩

/-- The keys beside the two bounds. -/
theorem Bounded.mem_keys_written (h : Bounded type choices lower upper)
    (hcanonical : ∀ choice ∈ choices, CanonicalValue type choice.1 choice.2) {key : String} :
    key ∈ Entries.keys (written type choices) ↔
      key = Operator.gte.word ∨ key = Operator.lte.word ∨
        (key = Operator.differs.word ∧ ∃ value, (.differs, value) ∈ choices) := by
  obtain ⟨hgte, hlte⟩ := h.get?_written hcanonical
  constructor
  · intro hkey
    rw [h.written_eq hcanonical, Entries.mem_keys_foldl_extend] at hkey
    rcases hkey with hkey | ⟨part, hpart, hkey⟩
    · exact absurd hkey List.not_mem_nil
    · obtain ⟨⟨operator, value⟩, hchoice, rfl⟩ := List.mem_map.1 hpart
      obtain ⟨operand, hmem⟩ := Entries.mem_keys.1 hkey
      obtain ⟨hword, -⟩ | ⟨hword, -⟩ | ⟨hword, hdiffers⟩ :=
        mem_boundPart h.type_eq (h.choice _ hchoice) hmem
      · exact .inl hword
      · exact .inr (.inl hword)
      · obtain rfl : operator = .differs := hdiffers
        exact .inr (.inr ⟨hword, value, hchoice⟩)
  · rintro (rfl | rfl | ⟨rfl, value, hchoice⟩)
    · exact Entries.mem_keys_of_get? hgte
    · exact Entries.mem_keys_of_get? hlte
    · rw [h.written_eq hcanonical, Entries.mem_keys_foldl_extend]
      exact .inr ⟨_, List.mem_map_of_mem hchoice, List.mem_cons_self⟩

/-- Choices with two bounds are compiled to the same operators again if and only if they are
kept. -/
theorem Bounded.same_written_iff (h : Bounded type choices lower upper)
    (hcanonical : ∀ choice ∈ choices, CanonicalValue type choice.1 choice.2) :
    Json.Same (.object (writtenAgain type choices)) (.object (written type choices)) ↔
      ChoicesKept type choices := by
  obtain ⟨hgte, hlte⟩ := h.get?_written hcanonical
  have hkeys : ∀ key, key ∈ Entries.keys (written type choices) ↔ _ := fun key =>
    h.mem_keys_written hcanonical
  obtain ⟨a, b, htext, hcomma, hfit⟩ := exists_ends h.canonical_lower h.canonical_upper
  have hbetween : type.operator? betweenLabel = some .between := by
    rcases h.type_eq with rfl | rfl <;> decide
  -- what is read again is the one range, whatever else was written
  have hchosen : (chosen type (written type choices) : List (Operator × Value σ)) =
      [(.between, .text (a ++ "," ++ b))] := by
    rw [chosen, scalarRows_bounds h.type_eq hgte hlte, htext]
    rw [List.filterMap_cons_some (b := (.between, .text (a ++ "," ++ b))), List.filterMap_nil]
    rw [hbetween, Option.map_some]
  obtain ⟨hlower, hupper⟩ := get?_boundsOf type a b
  rw [writtenAgain, hchosen, written_range h.type_eq hcomma, Json.same_object_iff, h.kept, ← hfit]
  constructor
  · rintro ⟨hsame, hvalues⟩
    have hfound : ∀ {key : String} {s : String}, Entries.get? (written type choices) key =
        some (boundJson type s) → Entries.get? (boundsOf type a b) key =
          some (boundJson type s) := by
      intro key s hget
      obtain ⟨x, hx⟩ := Entries.exists_get? ((hsame key).2 (Entries.mem_keys_of_get? hget))
      have heq := (hvalues key x _ hx hget).symm.eq_of_scalar (boundJson_scalar type s)
      rw [hx, ← heq]
    refine ⟨fun value hvalue => ?_, hlower ▸ hfound hgte, hupper ▸ hfound hlte⟩
    have hkey := (hsame Operator.differs.word).2 ((hkeys _).2 (.inr (.inr ⟨rfl, value, hvalue⟩)))
    rcases eq_of_mem_keys_boundsOf hkey with heq | heq <;> exact absurd heq (by decide)
  · rintro ⟨halone, ha, hb⟩
    rw [ha] at hlower
    rw [hb] at hupper
    constructor
    · intro key
      rw [hkeys]
      constructor
      · intro hkey
        rcases eq_of_mem_keys_boundsOf hkey with heq | heq
        · exact .inl heq
        · exact .inr (.inl heq)
      · rintro (rfl | rfl | ⟨-, value, hvalue⟩)
        · exact Entries.mem_keys_of_get? hlower
        · exact Entries.mem_keys_of_get? hupper
        · exact absurd hvalue (halone value)
    · intro key x y hx hy
      rcases eq_of_mem_keys_boundsOf (Entries.mem_keys_of_get? hx) with rfl | rfl
      · rw [hlower] at hx
        rw [hgte] at hy
        rw [← Option.some.inj hx, ← Option.some.inj hy]
        exact .refl _
      · rw [hupper] at hx
        rw [hlte] at hy
        rw [← Option.some.inj hx, ← Option.some.inj hy]
        exact .refl _

end Written

/-- Compatible canonical choices are compiled to the same operators again if and only if they are
kept. -/
theorem same_written_iff (h : CompatibleChoices type choices)
    (hcanonical : ∀ choice ∈ choices, CanonicalValue type choice.1 choice.2) :
    Json.Same (.object (writtenAgain type choices)) (.object (written type choices)) ↔
      ChoicesKept type choices := by
  by_cases hbounds : HasBounds choices
  · obtain ⟨lower, upper, hbounded⟩ := exists_bounded h hcanonical hbounds
    exact hbounded.same_written_iff hcanonical
  · rw [writtenAgain, chosen_written h hcanonical hbounds]
    exact iff_of_true (.refl _) (choicesKept_of_not_hasBounds hbounds)

end QueryFilter
