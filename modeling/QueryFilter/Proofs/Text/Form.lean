import QueryFilter.Proofs.Text.Percent
import QueryFilter.Proofs.Text.Split
import QueryFilter.Text.Form

/-!
# Form texts and percent escapes

The two alphabets of escapes are read by one another's readers: a form text reads a URI component as
the text it stands for (`decodeForm_encode`), and a query string reads the form of a text as the
text (`decode_encodeForm`), for both turn plus signs into blanks before they read escapes.
-/

namespace QueryFilter.Text

namespace Percent

/-! ### The alphabet of form texts -/

/-- What a form leaves as it is, percent encoding does as well, apart from the asterisk. -/
theorem isUnreserved_of_isFormSafe {c : Char} (h : isFormSafe c = true) :
    isUnreserved c = true ∨ c = '*' := by
  simp only [isFormSafe, Bool.or_eq_true, beq_iff_eq] at h
  rcases h with (((h | rfl) | rfl) | rfl) | rfl
  · exact .inl (by simp [isUnreserved, h])
  · exact .inr rfl
  all_goals exact .inl (by decide)

/-- The form of a text holds unreserved characters, asterisks, plus signs and percent signs only. -/
theorem kept_of_mem_encodeForm {cs : List Char} {c : Char} (h : c ∈ encodeForm cs) :
    isUnreserved c = true ∨ c = '*' ∨ c = '+' ∨ c = '%' := by
  obtain ⟨d, -, hd⟩ := List.mem_flatMap.1 h
  split at hd
  · rename_i hsafe
    rw [List.mem_singleton.1 hd]
    exact (isUnreserved_of_isFormSafe hsafe).imp_right .inl
  · split at hd
    · exact .inr (.inr (.inl (List.mem_singleton.1 hd)))
    · exact (kept_of_mem_escapeChar hd).imp_right fun h => .inr (.inr h)

/-- A character with a meaning in query strings does not occur in the form of a text. -/
theorem not_mem_encodeForm {c : Char} (hu : isUnreserved c = false)
    (hother : c ≠ '*' ∧ c ≠ '+' ∧ c ≠ '%') (cs : List Char) : c ∉ encodeForm cs := by
  intro h
  rcases kept_of_mem_encodeForm h with h | h | h | h
  · rw [hu] at h
    exact absurd h (by decide)
  · exact hother.1 h
  · exact hother.2.1 h
  · exact hother.2.2 h

/-! ### Reading across alphabets -/

/-- Plus signs are replaced part by part. -/
theorem plusToBlank_append (a b : List Char) :
    plusToBlank (a ++ b) = plusToBlank a ++ plusToBlank b :=
  List.map_append

/-- With blanks for plus signs, the octets of the form of a text are those of the text. -/
theorem octets_encodeForm (cs : List Char) :
    octets (plusToBlank (encodeForm cs)) = Utf8.encode cs := by
  induction cs with
  | nil => rw [Utf8.encode_nil, encodeForm, List.flatMap_nil, plusToBlank, List.map_nil, octets_nil]
  | cons c cs ih =>
    rw [encodeForm, List.flatMap_cons, ← encodeForm, Utf8.encode_cons, plusToBlank_append]
    by_cases hsafe : isFormSafe c = true
    · have hplus : c ≠ '+' := by
        rintro rfl
        exact absurd hsafe (by decide)
      have hpercent : c ≠ '%' := by
        rintro rfl
        exact absurd hsafe (by decide)
      rw [if_pos hsafe, plusToBlank_of_not_mem (by simp [Ne.symm hplus]), List.singleton_append,
        octets_cons_of_ne hpercent, ih]
    · rw [if_neg hsafe]
      by_cases hblank : c = ' '
      · have hplus : plusToBlank ['+'] = [' '] := rfl
        rw [if_pos hblank, hblank, hplus, List.singleton_append, octets_cons_of_ne (by decide), ih]
      · have hplus : '+' ∉ escapeChar c := by
          intro h
          rcases kept_of_mem_escapeChar h with h | h <;> exact absurd h (by decide)
        rw [if_neg hblank, plusToBlank_of_not_mem hplus, escapeChar,
          octets_escapes (fun b => Utf8.lt_of_mem_encodeChar), ih]

/-- Nothing is written exactly for the empty text. -/
theorem encodeForm_eq_nil {cs : List Char} : encodeForm cs = [] ↔ cs = [] := by
  constructor
  · intro h
    have hoctets := octets_encodeForm cs
    rw [h, plusToBlank, List.map_nil, octets_nil] at hoctets
    have hread := Utf8.decodeStrict_encode cs
    rw [← hoctets, Utf8.decodeStrict_nil] at hread
    exact (Option.some.inj hread).symm
  · rintro rfl
    rfl

/-- A form text reads a URI component as the text that it stands for. -/
theorem decodeForm_encode (cs : List Char) : decodeForm (encode cs) = cs := by
  have hplus : '+' ∉ encode cs := not_mem_encode (by decide) (by decide) _
  rw [decodeForm, plusToBlank_of_not_mem hplus, octets_encode, Utf8.decodeLossy_encode]

end Percent

namespace Form

/-! ### Pairs -/

/-- Pairs that are not empty are told apart. -/
theorem segments_joinWith {parts : List (List Char)} (h : ∀ part ∈ parts, part ≠ [] ∧ '&' ∉ part) :
    segments (joinWith "&" (parts.map String.ofList)).toList = parts := by
  cases parts with
  | nil => rfl
  | cons part parts =>
    have hpieces := piecesAt_joinWith (List.cons_ne_nil part parts) fun p hp => (h p hp).2
    change piecesAt '&' (joinWith "&" ((part :: parts).map String.ofList)).toList = _ at hpieces
    rw [segments, hpieces]
    refine List.filter_eq_self.2 fun p hp => ?_
    rw [List.isEmpty_eq_false_iff.2 (h p hp).1]
    rfl

/-- A parameter is split at its first equals sign. -/
theorem pair_append {key : List Char} (h : '=' ∉ key) (value : List Char) :
    pair (key ++ '=' :: value) = (Percent.decodeForm key, Percent.decodeForm value) := by
  rw [pair, cutAt_append h]
  rfl

/-- A parameter without an equals sign has an empty value. -/
theorem pair_of_not_mem {key : List Char} (h : '=' ∉ key) :
    pair key = (Percent.decodeForm key, []) := by
  rw [pair, cutAt_eq_none.2 h]
  rfl

end Form

end QueryFilter.Text

namespace QueryFilter.Query

open Text

/-- A query string reads the form of a text as the text. -/
theorem decode_encodeForm (s : String) : decode (Percent.encodeForm s.toList) = s := by
  rw [decode, Percent.decode, Percent.octets_encodeForm, Utf8.decodeStrict_encode, Option.getD_some,
    String.ofList_toList]

end QueryFilter.Query
