import QueryFilter.Text.Utf8

/-!
# Reading what was written as UTF-8

The octets of a text are well-formed, and reading them gives the text back.  The work is done for
one character in front of any octets (`decodeFrom_encodeChar`); its cases are the four lengths of a
character, and within them the first octets whose successor is confined to a smaller range.
-/

namespace QueryFilter.Text.Utf8

/-! ### First octets -/

/-- An ASCII octet is a character of its own. -/
theorem lead_single {b : Nat} (h : b < 0x80) : lead b = .single (Char.ofNat b) := by
  rw [lead, if_pos h]

/-- Where a character of two octets begins, one more octet is owed. -/
theorem lead_two {b : Nat} (hl : 0xC2 ≤ b) (hu : b < 0xE0) :
    lead b = .begins (.inside 0 0x80 0xBF (b - 0xC0)) := by
  rw [lead, if_neg (by omega), if_neg (by omega), if_pos hu]

/-- The ranges of the second octet of a character of three octets. -/
theorem lead_three {b : Nat} (hl : 0xE0 ≤ b) (hu : b < 0xF0) :
    lead b = .begins (.inside 1 (if b = 0xE0 then 0xA0 else 0x80) (if b = 0xED then 0x9F else 0xBF)
      (b - 0xE0)) := by
  have h1 : ¬ b < 0x80 := by omega
  have h2 : ¬ b < 0xC2 := by omega
  have h3 : ¬ b < 0xE0 := by omega
  by_cases he : b = 0xE0
  · subst he; rfl
  · by_cases hd : b = 0xED
    · subst hd; rfl
    · simp only [lead, h1, h2, h3, he, hd, hu, if_false, if_true]

/-- The ranges of the second octet of a character of four octets. -/
theorem lead_four {b : Nat} (hl : 0xF0 ≤ b) (hu : b ≤ 0xF4) :
    lead b = .begins (.inside 2 (if b = 0xF0 then 0x90 else 0x80) (if b = 0xF4 then 0x8F else 0xBF)
      (b - 0xF0)) := by
  have h1 : b = 0xF0 ∨ b = 0xF1 ∨ b = 0xF2 ∨ b = 0xF3 ∨ b = 0xF4 := by omega
  rcases h1 with rfl | rfl | rfl | rfl | rfl <;> rfl

/-! ### Further octets -/

/-- An octet that begins a character is not a character yet. -/
theorem decodeFrom_begins {b : Nat} {next : State} (h : lead b = .begins next) (bs : List Nat) :
    decodeFrom .idle (b :: bs) = decodeFrom next bs := by
  rw [decodeFrom, h]

/-- The last octet of a character completes it. -/
theorem decodeFrom_last {low high value b : Nat} (hl : low ≤ b) (hu : b ≤ high) (bs : List Nat) :
    decodeFrom (.inside 0 low high value) (b :: bs) =
      some (Char.ofNat (value * 0x40 + (b - 0x80))) :: decodeFrom .idle bs := by
  rw [decodeFrom, if_pos ⟨hl, hu⟩]

/-- An octet within a character adds six bits, and the next one may be any that continues. -/
theorem decodeFrom_more {owed low high value b : Nat} (hl : low ≤ b) (hu : b ≤ high)
    (bs : List Nat) :
    decodeFrom (.inside (owed + 1) low high value) (b :: bs) =
      decodeFrom (.inside owed 0x80 0xBF (value * 0x40 + (b - 0x80))) bs := by
  rw [decodeFrom, if_pos ⟨hl, hu⟩]

/-! ### Characters and texts -/

/-- A character is no surrogate and lies in the range of Unicode. -/
theorem toNat_bounds (c : Char) : c.toNat < 0xD800 ∨ (0xDFFF < c.toNat ∧ c.toNat < 0x110000) :=
  c.valid

/-- The octets of a character in front of others are read as the character. -/
theorem decodeFrom_encodeChar (c : Char) (bs : List Nat) :
    decodeFrom .idle (encodeChar c ++ bs) = some c :: decodeFrom .idle bs := by
  have hv := toNat_bounds c
  have hc : Char.ofNat c.toNat = c := Char.ofNat_toNat c
  generalize hn : c.toNat = v at hv hc
  simp only [encodeChar, hn]
  -- one case for each number of octets
  by_cases h1 : v < 0x80
  · rw [if_pos h1, List.singleton_append, decodeFrom, lead_single h1, hc]
  rw [if_neg h1]
  by_cases h2 : v < 0x800
  · have hlead := lead_two (b := 0xC0 + v / 0x40) (by omega) (by omega)
    have hsum : (0xC0 + v / 0x40 - 0xC0) * 0x40 + (0x80 + v % 0x40 - 0x80) = v := by omega
    rw [if_pos h2, List.cons_append, List.singleton_append, decodeFrom_begins hlead,
      decodeFrom_last (by omega) (by omega), hsum, hc]
  rw [if_neg h2]
  by_cases h3 : v < 0x10000
  · have hlead := lead_three (b := 0xE0 + v / 0x1000) (by omega) (by omega)
    have hsum : ((0xE0 + v / 0x1000 - 0xE0) * 0x40 + (0x80 + v / 0x40 % 0x40 - 0x80)) * 0x40 +
        (0x80 + v % 0x40 - 0x80) = v := by omega
    rw [if_pos h3, List.cons_append, List.cons_append, List.singleton_append,
      decodeFrom_begins hlead, decodeFrom_more (by split <;> omega) (by split <;> omega),
      decodeFrom_last (by omega) (by omega), hsum, hc]
  · have hlead := lead_four (b := 0xF0 + v / 0x40000) (by omega) (by omega)
    have hsum : (((0xF0 + v / 0x40000 - 0xF0) * 0x40 + (0x80 + v / 0x1000 % 0x40 - 0x80)) * 0x40 +
        (0x80 + v / 0x40 % 0x40 - 0x80)) * 0x40 + (0x80 + v % 0x40 - 0x80) = v := by omega
    rw [if_neg h3, List.cons_append, List.cons_append, List.cons_append, List.singleton_append,
      decodeFrom_begins hlead, decodeFrom_more (by split <;> omega) (by split <;> omega),
      decodeFrom_more (by omega) (by omega), decodeFrom_last (by omega) (by omega), hsum, hc]

/-- The octets of a text are read as its characters. -/
theorem decode_encode (cs : List Char) : decode (encode cs) = cs.map some := by
  induction cs with
  | nil => rfl
  | cons c cs ih =>
    rw [encode_cons, decode, decodeFrom_encodeChar]
    exact congrArg (some c :: ·) ih

/-- Reading is the inverse of writing. -/
theorem decodeStrict_encode (cs : List Char) : decodeStrict (encode cs) = some cs := by
  rw [decodeStrict, decode_encode]
  induction cs with
  | nil => rfl
  | cons c cs ih => simp [ih]

/-- Nothing is lost of the octets of a text. -/
theorem decodeLossy_encode (cs : List Char) : decodeLossy (encode cs) = cs := by
  rw [decodeLossy, decode_encode, List.map_map]
  exact List.map_id' cs

end QueryFilter.Text.Utf8
