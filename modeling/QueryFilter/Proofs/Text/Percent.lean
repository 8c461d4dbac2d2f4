import QueryFilter.Proofs.Text.Utf8
import QueryFilter.Query.Bracket

/-!
# Reading what was written with percent escapes

An encoded text holds unreserved characters and percent signs only (`kept_of_mem_encode`), so that
the separators of a query string never occur in it, and its octets are those of the text
(`octets_encode`).  Together they make reading a segment of a query string the inverse of writing
it (`decode_encode`).
-/

namespace QueryFilter.Text

/-! ### Octets and hexadecimal digits -/

/-- The octets of a character are below 256. -/
theorem Utf8.lt_of_mem_encodeChar {c : Char} {b : Nat} (h : b ∈ encodeChar c) : b < 256 := by
  have hv := toNat_bounds c
  unfold encodeChar at h
  generalize c.toNat = v at h hv
  simp only at h
  split at h
  · simp only [List.mem_singleton] at h
    omega
  · split at h
    · simp only [List.mem_cons, List.not_mem_nil, or_false] at h
      omega
    · split at h <;> simp only [List.mem_cons, List.not_mem_nil, or_false] at h <;> omega

namespace Percent

/-- A hexadecimal digit is read back as its value. -/
theorem hexValue?_hexDigit {n : Nat} (h : n < 16) : hexValue? (hexDigit n) = some n := by
  revert n
  decide

/-- Hexadecimal digits are unreserved. -/
theorem isUnreserved_hexDigit {n : Nat} (h : n < 16) : isUnreserved (hexDigit n) = true := by
  revert n
  decide

/-! ### The octets of an encoded text -/

/-- An escaped octet stands for itself. -/
theorem octets_escapeOctet {b : Nat} (h : b < 256) (cs : List Char) :
    octets (escapeOctet b ++ cs) = b :: octets cs := by
  have hhigh := hexValue?_hexDigit (n := b / 16) (by omega)
  have hlow := hexValue?_hexDigit (n := b % 16) (by omega)
  have hsum : b / 16 * 16 + b % 16 = b := by omega
  simp only [escapeOctet, List.cons_append, List.nil_append]
  rw [octets, hhigh, hlow]
  simp only [hsum]

/-- Escaped octets stand for themselves. -/
theorem octets_escapes {bs : List Nat} (h : ∀ b ∈ bs, b < 256) (cs : List Char) :
    octets (bs.flatMap escapeOctet ++ cs) = bs ++ octets cs := by
  induction bs with
  | nil => rfl
  | cons b bs ih =>
    have hb : b < 256 := h b List.mem_cons_self
    have hbs : ∀ b' ∈ bs, b' < 256 := fun b' hb' => h b' (List.mem_cons_of_mem _ hb')
    rw [List.flatMap_cons, List.append_assoc, octets_escapeOctet hb, ih hbs, List.cons_append]

/-- A character that begins no escape stands for its own octets. -/
theorem octets_cons_of_ne {c : Char} (h : c ≠ '%') (cs : List Char) :
    octets (c :: cs) = Utf8.encodeChar c ++ octets cs := by
  rw [octets.eq_2]
  exact fun _ _ _ heq => absurd heq h

/-- The octets of an encoded text in front of another text are those of the text. -/
theorem octets_encode_append (cs rest : List Char) :
    octets (encode cs ++ rest) = Utf8.encode cs ++ octets rest := by
  induction cs with
  | nil => rw [encode_nil, Utf8.encode_nil, List.nil_append, List.nil_append]
  | cons c cs ih =>
    rw [encode, List.flatMap_cons, ← encode, Utf8.encode_cons, List.append_assoc, List.append_assoc]
    by_cases hc : isUnreserved c = true
    · have hne : c ≠ '%' := by
        rintro rfl
        exact absurd hc (by decide)
      rw [if_pos hc, List.singleton_append, octets_cons_of_ne hne, ih]
    · rw [if_neg hc, escapeChar, octets_escapes (fun b => Utf8.lt_of_mem_encodeChar), ih]

/-- The octets of an encoded text are those of the text. -/
theorem octets_encode (cs : List Char) : octets (encode cs) = Utf8.encode cs := by
  have happend := octets_encode_append cs []
  rwa [List.append_nil, octets_nil, List.append_nil] at happend

/-! ### The alphabet of an encoded text -/

/-- An escaped character is made of percent signs and characters that are never escaped. -/
theorem kept_of_mem_escapeChar {c d : Char} (h : d ∈ escapeChar c) :
    isUnreserved d = true ∨ d = '%' := by
  obtain ⟨b, hb, hd⟩ := List.mem_flatMap.1 h
  have hlt := Utf8.lt_of_mem_encodeChar hb
  simp only [escapeOctet, List.mem_cons, List.not_mem_nil, or_false] at hd
  rcases hd with rfl | rfl | rfl
  · exact .inr rfl
  · exact .inl (isUnreserved_hexDigit (by omega))
  · exact .inl (isUnreserved_hexDigit (by omega))

/-- An encoded text holds unreserved characters and percent signs only. -/
theorem kept_of_mem_encode {cs : List Char} {c : Char} (h : c ∈ encode cs) :
    isUnreserved c = true ∨ c = '%' := by
  obtain ⟨d, _, hd⟩ := List.mem_flatMap.1 h
  split at hd
  · rename_i hu
    rw [List.mem_singleton.1 hd]
    exact .inl hu
  · exact kept_of_mem_escapeChar hd

/-- A character with a meaning in query strings does not occur in an encoded text. -/
theorem not_mem_encode {c : Char} (hu : isUnreserved c = false) (hp : c ≠ '%') (cs : List Char) :
    c ∉ encode cs := by
  intro h
  rcases kept_of_mem_encode h with h | h
  · rw [hu] at h
    exact absurd h (by decide)
  · exact hp h

/-- An unreserved character is ASCII and visible. -/
theorem not_isBlank_of_isUnreserved {c : Char} (h : isUnreserved c = true) : isBlank c = false := by
  have hrange : 0x2D ≤ c.toNat ∧ c.toNat ≤ 0x7E := by
    simp only [isUnreserved, isAlphanumeric, Bool.or_eq_true, Bool.and_eq_true, decide_eq_true_eq,
      beq_iff_eq] at h
    have hle : ∀ a b : Char, a ≤ b ↔ a.toNat ≤ b.toNat := fun a b => Iff.rfl
    simp only [hle] at h
    rcases h with (((((h | h) | h) | rfl) | rfl) | rfl) | rfl
    · exact ⟨Nat.le_trans (by decide) h.1, Nat.le_trans h.2 (by decide)⟩
    · exact ⟨Nat.le_trans (by decide) h.1, Nat.le_trans h.2 (by decide)⟩
    · exact ⟨Nat.le_trans (by decide) h.1, Nat.le_trans h.2 (by decide)⟩
    all_goals decide
  simp only [isBlank, blankRanges, List.any_cons, List.any_nil, Bool.or_false, Bool.or_eq_false_iff,
    Bool.and_eq_false_iff, decide_eq_false_iff_not]
  omega

/-- A digit is never escaped. -/
theorem isUnreserved_of_isDigit {c : Char} (h : Decimal.isDigit c = true) :
    isUnreserved c = true := by
  simp only [Decimal.isDigit] at h
  simp [isUnreserved, isAlphanumeric, h]

/-- Unreserved characters stay as they are. -/
theorem encode_of_unreserved {cs : List Char} (h : ∀ c ∈ cs, isUnreserved c = true) :
    encode cs = cs := by
  induction cs with
  | nil => rfl
  | cons c cs ih =>
    have hrest := ih fun d hd => h d (List.mem_cons_of_mem _ hd)
    rw [encode, List.flatMap_cons, ← encode, hrest, if_pos (h c List.mem_cons_self)]
    rfl

/-- Nothing is written exactly for the empty text. -/
theorem encode_eq_nil {cs : List Char} : encode cs = [] ↔ cs = [] := by
  constructor
  · intro h
    have hoctets := octets_encode cs
    rw [h, octets_nil] at hoctets
    have hread := Utf8.decodeStrict_encode cs
    rw [← hoctets, Utf8.decodeStrict_nil] at hread
    exact (Option.some.inj hread).symm
  · rintro rfl
    rfl

/-! ### Round trip -/

/-- Without plus signs there is nothing to turn into blanks. -/
theorem plusToBlank_of_not_mem {cs : List Char} (h : '+' ∉ cs) : plusToBlank cs = cs := by
  have hid : ∀ c ∈ cs, (if c = '+' then ' ' else c) = c := by
    intro c hc
    have hne : c ≠ '+' := by
      rintro rfl
      exact h hc
    exact if_neg hne
  rw [plusToBlank, List.map_congr_left hid, List.map_id']

/-- Characters are decoded from what they are encoded to. -/
theorem decode_encode (cs : List Char) : decode (encode cs) = some cs := by
  rw [decode, octets_encode, Utf8.decodeStrict_encode]

end Percent

end QueryFilter.Text

namespace QueryFilter.Query

open Text

/-- Reading a segment or a value is the inverse of writing it. -/
theorem decode_encode (s : String) : decode (Percent.encode s.toList) = s := by
  have hplus : '+' ∉ Percent.encode s.toList :=
    Percent.not_mem_encode (by decide) (by decide) _
  rw [decode, Percent.plusToBlank_of_not_mem hplus, Percent.decode_encode, Option.getD_some,
    String.ofList_toList]

end QueryFilter.Query
