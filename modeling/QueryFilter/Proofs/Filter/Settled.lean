import QueryFilter.Proofs.Filter.Bounds
import QueryFilter.Proofs.Filter.Written

/-!
# Writing operators that were written before

Operators that are written for a scalar field are restored and written again.  Each operand comes
back as it is (`operandOf_valueOf`), and so do all operators, unless both a lower and an upper bound
are among them: these are restored as one range, which stands for itself alone
(`written_chosen_iff`).

The texts of doubles are assumed to be read as the doubles.
-/

namespace QueryFilter

open Compile Restore
open Calendar (Instant)

variable {σ : Type} {type : FieldType} {operators : Object}

/-- The doubles among the operands are read from their texts. -/
def DoublesReadBack (operators : Object) : Prop :=
  ∀ word d, (word, .number (.double d)) ∈ operators → d.ReadsBack

/-! ### Operands -/

/-- A written operand is written again for the value that is restored from it. -/
theorem operandOf_valueOf {operator : Operator} {operand : Json}
    (hoffered : operator ∈ type.specs.map OperatorSpec.operator)
    (h : WrittenOperand type operator operand)
    (hdouble : ∀ d, operand = .number (.double d) → d.ReadsBack) :
    operandOf type (valueOf type operator operand : Value σ) = operand ∧
      (type = .date → (valueOf type operator operand : Value σ).isEmpty = false) := by
  cases h with
  | text s => exact ⟨rfl, fun heq => absurd heq (by decide)⟩
  | number raw =>
    refine ⟨?_, fun heq => absurd heq (by decide)⟩
    have hread := Operand.numberJson_plainText hdouble
    rw [valueOf, isList_number hoffered, if_neg (by decide), operandOf_text (.inl rfl),
      boundJson_number]
    exact hread
  | @date _ raw hblank =>
    -- a date is shown in a form that is read as the same instant
    have hshown := Operand.not_allBlank_instant hblank
    have hwritten : Operand.dateJson raw =
        .string ((Operand.instantText? raw).getD raw) := rfl
    generalize (Operand.instantText? raw).getD raw = s at hwritten hshown
    rw [hwritten]
    exact ⟨Operand.dateJson_shown hwritten, fun _ => Operand.not_allBlank_shown hwritten hshown⟩
  | choice s =>
    refine ⟨?_, fun heq => absurd heq (by decide)⟩
    rw [valueOf, Json.isString, Bool.not_true, Bool.and_false, if_neg (by decide)]
    rfl
  | choices hlist texts =>
    refine ⟨?_, fun heq => absurd heq (by decide)⟩
    have hstring : (Json.ofStrings texts).isString = false := rfl
    rw [valueOf, hlist, hstring, if_pos (by decide)]
    exact congrArg Json.ofStrings (listItems_ofStrings texts)
  | several texts =>
    exact ⟨congrArg Json.ofStrings (listItems_ofStrings texts), fun heq => absurd heq (by decide)⟩
  | truth b => exact ⟨rfl, fun heq => absurd heq (by decide)⟩
  | @truthText _ raw hread =>
    refine ⟨?_, fun heq => absurd heq (by decide)⟩
    have hvalue : (valueOf .boolean operator (.string raw) : Value σ) = .text raw := by
      simp only [valueOf, Json.plainText_string, hread]
    rw [hvalue, operandOf, boolOperand, hread]
    rfl

/-- What an entry of an operator is restored to writes the entry. -/
theorem fragmentOf?_single? {entry : String × Json} (h : OperatorEntry type entry)
    (hdouble : ∀ d, entry.2 = .number (.double d) → d.ReadsBack) :
    ((single? type entry : Option (String × Value σ)).bind fun row =>
      ((type.operator? row.1).map fun operator => (operator, row.2)).bind (fragmentOf? type)) =
        some (withMode type [entry]) := by
  obtain ⟨word, operand⟩ := entry
  obtain ⟨operator, hoffered, hne, rfl, hwritten⟩ := h
  obtain ⟨spec, hspec, rfl⟩ := List.mem_map.1 hoffered
  obtain ⟨hoperand, hblank⟩ := operandOf_valueOf (σ := σ) hoffered hwritten hdouble
  have hwrites : ¬ (type = .date ∧ (valueOf type spec.operator operand : Value σ).isEmpty = true) :=
    fun h => Bool.eq_false_iff.1 (hblank h.1) h.2
  rw [single?_word hspec, Option.bind_some, FieldType.operator?_label hspec, Option.map_some,
    Option.bind_some, fragmentOf?, scalarFragment?_eq hne, if_neg hwrites, hoperand,
    withMode_single]

/-! ### Without a range -/

/-- The mode does not matter to a reader that skips it. -/
theorem filterMap_withMode {β : Type} {f : String × Json → Option β}
    (h : f (modeKey, .string insensitive) = none) (entries : Object) :
    (withMode type entries).filterMap f = entries.filterMap f := by
  cases entries with
  | nil => rfl
  | cons entry entries =>
    have hmode : (modeEntries type).filterMap f = [] := by
      refine List.filterMap_eq_nil_iff.2 fun other hother => ?_
      unfold modeEntries at hother
      split at hother
      · rw [List.mem_singleton.1 hother, h]
      · exact absurd hother List.not_mem_nil
    rw [withMode, ← List.singleton_append, List.filterMap_append, List.filterMap_append, hmode,
      List.nil_append, ← List.filterMap_append, List.singleton_append]

/-- Entries that are written one by one, each with the mode, stand in order. -/
theorem united_withMode {entries : Object} (hne : entries ≠ [])
    (hdistinct : Entries.Distinct entries) (hmode : modeKey ∉ Entries.keys entries) :
    united (entries.map fun entry => withMode type [entry]) = withMode type entries := by
  -- by the entries that follow: the mode stays where the first entry put it
  have hrest : ∀ (more first : Object), first ≠ [] → modeKey ∉ Entries.keys first →
      modeKey ∉ Entries.keys more →
      (more.map fun entry => withMode type [entry]).foldl Entries.extend (withMode type first) =
        withMode type (Entries.extend first more) := by
    intro more
    induction more with
    | nil => exact fun _ _ _ _ => rfl
    | cons entry more ih =>
      intro first hfirst hfree hmore
      rw [Entries.keys_cons, List.mem_cons, not_or] at hmore
      have hone : modeKey ∉ Entries.keys [entry] := by simpa using hmore.1
      have hboth : modeKey ∉ Entries.keys (Entries.extend first [entry]) := by
        rw [Entries.mem_keys_extend, not_or]
        exact ⟨hfree, hone⟩
      rw [List.map_cons, List.foldl_cons, extend_withMode hfirst hfree hone,
        ih _ (Entries.extend_ne_nil hfirst _) hboth hmore.2]
      rfl
  cases entries with
  | nil => exact absurd rfl hne
  | cons entry entries =>
    obtain ⟨hnew, hrestDistinct⟩ := List.nodup_cons.1 hdistinct
    rw [Entries.keys_cons, List.mem_cons, not_or] at hmode
    have hone : modeKey ∉ Entries.keys [entry] := by simpa using hmode.1
    have hdisjoint : ∀ key ∈ Entries.keys entries, key ∉ Entries.keys [entry] := by
      intro key hkey hmem
      rw [Entries.keys_cons, Entries.keys_nil, List.mem_singleton] at hmem
      exact hnew (hmem ▸ hkey)
    have hfirst : Entries.Distinct (withMode type [entry]) :=
      distinct_withMode (List.nodup_singleton entry.1) hone
    rw [united, List.map_cons, List.foldl_cons, Entries.extend_nil_left hfirst,
      hrest entries [entry] (List.cons_ne_nil _ _) hone hmode.2,
      Entries.extend_of_disjoint hrestDistinct hdisjoint, List.singleton_append]

/-- Without a range written operators are written again as they are. -/
theorem written_chosen_of_singles (h : WrittenOperators type operators)
    (hdoubles : DoublesReadBack operators)
    (hrange : (range? type operators : Option (String × Value σ)) = none) :
    written type (chosen type operators : List (Operator × Value σ)) = operators := by
  obtain ⟨hne, hdistinct, hentries⟩ := h
  rename_i entries
  have hmode : ((single? type (modeKey, .string insensitive) : Option (String × Value σ)).bind
      fun row => ((type.operator? row.1).map fun operator => (operator, row.2)).bind
        (fragmentOf? type)) = none := by
    rw [single?_modeKey]
    rfl
  have hparts : (entries.filterMap fun entry => (single? type entry :
      Option (String × Value σ)).bind fun row => ((type.operator? row.1).map fun operator =>
        (operator, row.2)).bind (fragmentOf? type)) =
      entries.map fun entry => withMode type [entry] := by
    rw [← List.filterMap_eq_map]
    refine List.filterMap_congr fun entry hentry => ?_
    refine fragmentOf?_single? (hentries entry hentry) fun d hd => ?_
    exact hdoubles entry.1 d (mem_withMode.2 (.inl (hd ▸ hentry)))
  rw [written, chosen, scalarRows_singles hrange, List.filterMap_filterMap,
    List.filterMap_filterMap, filterMap_withMode hmode, hparts,
    united_withMode hne hdistinct (WrittenOperators.mode_not_mem hentries)]

/-! ### Bounds -/

/-- A bound that the text of a range can hold: its text has no blanks at its ends, and an instant
has no time of day. -/
def HeldByRange (type : FieldType) (bound : Json) : Prop :=
  IsWholeText bound.plainText ∧
    (type = .date → ∀ i, Instant.parse? bound.plainText = some i → i.time = .midnight)

/-- If operators have a lower and an upper bound, then these stand alone and in this order, and the
text of a range can hold both and tell them apart. -/
def RangeKept (type : FieldType) (operators : Object) : Prop :=
  ∀ lower upper, Entries.get? operators Operator.gte.word = some lower →
    Entries.get? operators Operator.lte.word = some upper →
      operators = boundsFragment lower upper ∧ ',' ∉ lower.plainText.toList ∧
        HeldByRange type lower ∧ HeldByRange type upper

/-- A number has no comma, so that a range can be cut between its ends. -/
theorem comma_not_mem_number (n : Number) : ',' ∉ n.text.toList := fun h =>
  absurd (Number.isNumberChar_of_mem_text h) (by decide)

/-- The text that a range shows for a bound has a comma if and only if the bound has. -/
theorem comma_mem_endpoint_iff {operator : Operator} {bound : Json}
    (h : WrittenOperand type operator bound) :
    ',' ∈ (endpoint type bound).toList ↔ ',' ∈ bound.plainText.toList := by
  by_cases htype : type = .date
  · subst htype
    cases h with
    | @date _ raw hblank =>
      have hwritten : Operand.dateJson raw =
          .string ((Operand.instantText? raw).getD raw) := rfl
      generalize (Operand.instantText? raw).getD raw = s at hwritten
      rw [hwritten, endpoint, Json.plainText_string, Operand.dateText?]
      cases hparse : Instant.parse? s with
      | none => exact Iff.rfl
      | some i =>
        obtain ⟨hyear, htext⟩ := Operand.text_of_dateJson hwritten hparse
        rw [Option.map_some, Option.getD_some, ← htext]
        exact iff_of_false (Calendar.Date.comma_not_mem_text hyear) (Instant.comma_not_mem_text i)
  · have hplain : endpoint type bound = bound.plainText := by
      unfold endpoint
      split
      · exact absurd rfl htype
      · rfl
    rw [hplain]

/-- A bound that is written for a text without a comma has none. -/
theorem comma_not_mem_of_bound? {raw : String} {bound : Json}
    (h : bound? type (some raw) = some bound) (hraw : ',' ∉ raw.toList) :
    ',' ∉ bound.plainText.toList := by
  have htrim : ',' ∉ (Text.trim raw).toList := by
    rw [Text.toList_trim]
    exact fun hmem => hraw (Text.mem_of_mem_trimChars hmem)
  have hnumber : ',' ∉ (Operand.numberJson (Text.trim raw)).plainText.toList := by
    unfold Operand.numberJson
    cases Operand.number? (Text.trim raw) with
    | none => exact htrim
    | some n => exact comma_not_mem_number n
  have hdate : ',' ∉ (Operand.dateJson (Text.trim raw)).plainText.toList := by
    rw [Operand.dateJson, Operand.instantText?]
    cases Instant.parse? (Text.trim raw) with
    | none => exact htrim
    | some i => exact Instant.comma_not_mem_text i
  rw [← (bound?_eq_some.1 h).2]
  cases type with
  | date => exact hdate
  | _ => exact hnumber

/-- The text that a range shows for a written number is written as the number if and only if the
range can hold it. -/
theorem bound?_endpoint_number {raw : String}
    (hdouble : ∀ d, Operand.numberJson raw = .number (.double d) → d.ReadsBack) :
    bound? .number (some (endpoint .number (Operand.numberJson raw))) =
        some (Operand.numberJson raw) ↔ HeldByRange .number (Operand.numberJson raw) := by
  have hread := Operand.numberJson_plainText hdouble
  have hplain : endpoint .number (Operand.numberJson raw) =
      (Operand.numberJson raw).plainText := rfl
  have hheld : HeldByRange .number (Operand.numberJson raw) ↔
      IsWholeText (Operand.numberJson raw).plainText :=
    and_iff_left fun heq => absurd heq (by decide)
  rw [hplain, hheld, bound?_eq_some]
  constructor
  · rintro ⟨hne, hbound⟩
    have htrim : Text.trim (Operand.numberJson raw).plainText =
        (Operand.numberJson raw).plainText := by
      rcases Operand.numberJson_scalar raw with ⟨n, heq⟩ | ⟨s, heq⟩
      · rw [heq]
        exact Operand.trim_text n
      · rw [heq] at hbound ⊢
        exact Operand.eq_of_numberJson hbound
    rw [htrim] at hne
    exact ⟨htrim, hne⟩
  · rintro ⟨htrim, hne⟩
    rw [htrim]
    exact ⟨hne, hread⟩

/-- A text that is no date is written as it is if and only if it has no blanks at its ends. -/
theorem bound?_unread_iff {s : String} (h : Instant.parse? s = none) :
    bound? .date (some s) = some (.string s) ↔ IsWholeText s := by
  rw [bound?_eq_some]
  constructor
  · rintro ⟨hne, hbound⟩
    have htrim : Text.trim s = s := by
      rw [boundJson_date, Operand.dateJson, Operand.instantText?] at hbound
      cases hread : Instant.parse? (Text.trim s) with
      | none =>
        rw [hread] at hbound
        exact Json.string.inj hbound
      | some i =>
        rw [hread] at hbound
        rw [← Json.string.inj hbound]
        exact Instant.trim_text i
    rw [htrim] at hne
    exact ⟨htrim, hne⟩
  · rintro ⟨htrim, hne⟩
    rw [htrim, boundJson_date, Operand.dateJson, Operand.instantText?, h]
    exact ⟨hne, rfl⟩

/-- The day of an instant is written as the instant if and only if this has no time of day. -/
theorem bound?_instant_iff {i : Instant} (hyear : i.date.FourDigits)
    (hread : Instant.parse? i.text = some i) :
    bound? .date (some i.date.text) = some (.string i.text) ↔ i.time = .midnight := by
  rw [bound?_dateText hyear, Option.some_inj, Json.string.injEq]
  constructor
  · intro hstart
    have hself := Operand.parse?_startOf_text hyear
    rw [hstart, hread] at hself
    rw [Option.some.inj hself]
    rfl
  · intro hmidnight
    have hstart : Instant.startOf i.date = i := by rw [Instant.startOf, ← hmidnight]
    rw [hstart]

/-- The text that a range shows for a written date is written as the date if and only if the range
can hold it. -/
theorem bound?_endpoint_date (raw : String) :
    bound? .date (some (endpoint .date (Operand.dateJson raw))) = some (Operand.dateJson raw) ↔
      HeldByRange .date (Operand.dateJson raw) := by
  have hwritten : Operand.dateJson raw = .string ((Operand.instantText? raw).getD raw) := rfl
  generalize (Operand.instantText? raw).getD raw = s at hwritten
  rw [hwritten, endpoint, Json.plainText_string, Operand.dateText?, HeldByRange,
    Json.plainText_string]
  cases hparse : Instant.parse? s with
  | none =>
    rw [Option.map_none, Option.getD_none, bound?_unread_iff hparse]
    exact (and_iff_left fun _ _ heq => absurd heq (by simp)).symm
  | some i =>
    obtain ⟨hyear, rfl⟩ := Operand.text_of_dateJson hwritten hparse
    rw [Option.map_some, Option.getD_some, bound?_instant_iff hyear hparse]
    constructor
    · intro hmidnight
      refine ⟨⟨Instant.trim_text i, ?_⟩, fun _ j hj => ?_⟩
      · intro hempty
        have hread := Operand.not_allBlank_of_parse? hparse
        rw [hempty] at hread
        exact absurd hread (by decide)
      · obtain rfl := Option.some.inj hj
        exact hmidnight
    · rintro ⟨-, htime⟩
      exact htime rfl i rfl

/-- The text that a range shows for a written bound is written as the bound if and only if the range
can hold it. -/
theorem bound?_endpoint_iff (htype : type = .number ∨ type = .date) {operator : Operator}
    {bound : Json} (h : WrittenOperand type operator bound)
    (hdouble : ∀ d, bound = .number (.double d) → d.ReadsBack) :
    bound? type (some (endpoint type bound)) = some bound ↔ HeldByRange type bound := by
  rcases htype with rfl | rfl
  · cases h with
    | number raw => exact bound?_endpoint_number hdouble
  · cases h with
    | @date _ raw _ => exact bound?_endpoint_date raw

/-- Operators with both bounds are written again for the range of the bounds. -/
theorem written_chosen_of_bounds (htype : type = .number ∨ type = .date) {lower upper : Json}
    (hlower : Entries.get? operators Operator.gte.word = some lower)
    (hupper : Entries.get? operators Operator.lte.word = some upper)
    (hwritten : WrittenOperand type .gte lower ∧ WrittenOperand type .lte upper)
    (hdoubles : DoublesReadBack operators) :
    written type (chosen type operators : List (Operator × Value σ)) = operators ↔
      operators = boundsFragment lower upper ∧ ',' ∉ lower.plainText.toList ∧
        HeldByRange type lower ∧ HeldByRange type upper := by
  have hbetween : type.operator? betweenLabel = some .between := by
    rcases htype with rfl | rfl <;> decide
  have hchosen : ∀ text : String, endpoint type lower ++ "," ++ endpoint type upper = text →
      (chosen type operators : List (Operator × Value σ)) = [(.between, .text text)] := by
    rintro text rfl
    rw [chosen, scalarRows_bounds htype hlower hupper,
      List.filterMap_cons_some (b := (.between, .text _)), List.filterMap_nil]
    rw [hbetween, Option.map_some]
  have hcomma := comma_mem_endpoint_iff hwritten.1
  by_cases hmem : ',' ∈ (endpoint type lower).toList
  · -- the text is split at the comma inside the lower bound
    obtain ⟨before, after, hbefore, htext⟩ := exists_before_comma hmem (endpoint type upper)
    rw [hchosen _ htext, written_range htype hbefore]
    refine iff_of_false (fun heq => ?_) fun hkept => hkept.2.1 (hcomma.1 hmem)
    have hget := (get?_boundsOf type before (after ++ "," ++ endpoint type upper)).1
    rw [heq, hlower] at hget
    exact comma_not_mem_of_bound? hget.symm hbefore (hcomma.1 hmem)
  · have hfirst := bound?_endpoint_iff htype hwritten.1 fun d hd =>
      hdoubles _ d (Entries.mem_of_get? (hd ▸ hlower))
    have hsecond := bound?_endpoint_iff htype hwritten.2 fun d hd =>
      hdoubles _ d (Entries.mem_of_get? (hd ▸ hupper))
    -- where the comma is the one between the ends, both are read as they were written
    have hboth : bound? type (some (endpoint type lower)) = some lower →
        bound? type (some (endpoint type upper)) = some upper →
          boundsOf type (endpoint type lower) (endpoint type upper) =
            boundsFragment lower upper := by
      intro ha hb
      rw [boundsOf, ha, hb]
      rfl
    rw [hchosen _ rfl, written_range htype hmem, ← hfirst, ← hsecond]
    constructor
    · intro heq
      obtain ⟨ha, hb⟩ := get?_boundsOf type (endpoint type lower) (endpoint type upper)
      rw [heq, hlower] at ha
      rw [heq, hupper] at hb
      exact ⟨heq.symm.trans (hboth ha.symm hb.symm), fun h => hmem (hcomma.2 h), ha.symm, hb.symm⟩
    · rintro ⟨heq, -, ha, hb⟩
      exact (hboth ha hb).trans heq.symm

/-- A type that offers a bound has ranges. -/
theorem type_of_bound {operator : Operator} (h : operator = .gte ∨ operator = .lte)
    (hoffered : operator ∈ type.specs.map OperatorSpec.operator) :
    type = .number ∨ type = .date := by
  revert hoffered
  rcases h with rfl | rfl <;> cases type <;> decide

/-- Written operators are written again as they are if and only if their range is kept. -/
theorem written_chosen_iff (h : WrittenOperators type operators)
    (hdoubles : DoublesReadBack operators) :
    written type (chosen type operators : List (Operator × Value σ)) = operators ↔
      RangeKept type operators := by
  have hbound : ∀ {operator : Operator} {bound : Json},
      Entries.get? operators operator.word = some bound →
        operator ∈ type.specs.map OperatorSpec.operator ∧ WrittenOperand type operator bound := by
    intro operator bound hget
    obtain ⟨-, -, hentries⟩ := h
    rcases mem_withMode.1 (Entries.mem_of_get? hget) with hmem | ⟨-, -, heq⟩
    · obtain ⟨other, hoffered, -, hword, hwritten⟩ := hentries _ hmem
      obtain rfl := Operator.word_injective hword
      exact ⟨hoffered, hwritten⟩
    · exact absurd (Prod.mk.inj heq).1 (word_ne_modeKey operator)
  -- only two bounds together are read as a range
  cases hlower : Entries.get? operators Operator.gte.word with
  | none =>
    have hagain := written_chosen_of_singles (σ := σ) h hdoubles (range?_eq_none (.inl hlower))
    refine iff_of_true hagain fun lower upper hget _ => ?_
    exact absurd (hlower.symm.trans hget) (by simp)
  | some lower =>
    cases hupper : Entries.get? operators Operator.lte.word with
    | none =>
      have hagain := written_chosen_of_singles (σ := σ) h hdoubles (range?_eq_none (.inr hupper))
      refine iff_of_true hagain fun lower upper _ hget => ?_
      exact absurd (hupper.symm.trans hget) (by simp)
    | some upper =>
      obtain ⟨hoffered, hfirst⟩ := hbound hlower
      have hsecond := (hbound hupper).2
      rw [written_chosen_of_bounds (type_of_bound (.inl rfl) hoffered) hlower hupper
        ⟨hfirst, hsecond⟩ hdoubles]
      constructor
      · intro hkept a b ha hb
        obtain rfl := Option.some.inj (hlower.symm.trans ha)
        obtain rfl := Option.some.inj (hupper.symm.trans hb)
        exact hkept
      · exact fun hkept => hkept lower upper hlower hupper

end QueryFilter
