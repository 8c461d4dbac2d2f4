import QueryFilter.Json.Printer
import QueryFilter.Proofs.Decimal.Digits
import QueryFilter.Text.Blank

/-!
# The characters of written numbers

Numbers are written with digits, signs, a point and the letter `e` (`isNumberChar_of_mem_text`).  In
particular neither blanks nor commas occur in them.
-/

namespace QueryFilter.Decimal

/-- The characters that numbers are written with. -/
def isNumberChar (c : Char) : Bool :=
  isDigit c || c == '-' || c == '+' || c == '.' || c == 'e'

/-- A digit stands in numbers. -/
theorem isNumberChar_of_isDigit {c : Char} (h : isDigit c = true) : isNumberChar c = true := by
  simp [isNumberChar, h]

/-- No blank stands in numbers. -/
theorem not_isBlank_of_isNumberChar {c : Char} (h : isNumberChar c = true) :
    Text.isBlank c = false := by
  have hrange : 0x2B ≤ c.toNat ∧ c.toNat ≤ 0x65 := by
    simp only [isNumberChar, Bool.or_eq_true, beq_iff_eq] at h
    rcases h with (((h | rfl) | rfl) | rfl) | rfl
    · rw [isDigit, Bool.and_eq_true, decide_eq_true_eq, decide_eq_true_eq] at h
      exact ⟨Nat.le_trans (by decide) h.1, Nat.le_trans h.2 (by decide)⟩
    all_goals decide
  simp only [Text.isBlank, Text.blankRanges, List.any_cons, List.any_nil, Bool.or_false,
    Bool.or_eq_false_iff, Bool.and_eq_false_iff, decide_eq_false_iff_not]
  omega

/-- Zeros that fill up stand in numbers. -/
theorem isNumberChar_of_mem_zeros {n : Nat} {c : Char} (h : c ∈ zeros n) :
    isNumberChar c = true := by
  rw [(List.mem_replicate.1 h).2]
  rfl

variable {digits : List Char}

/-- A number without an exponent is made of characters of numbers. -/
theorem isNumberChar_of_mem_positional (hdigits : ∀ c ∈ digits, isDigit c = true) {power : Int}
    {c : Char} (h : c ∈ positional digits power) : isNumberChar c = true := by
  unfold positional at h
  split at h
  · rw [List.cons_append, List.cons_append, List.mem_cons, List.mem_cons, List.mem_append] at h
    rcases h with rfl | rfl | h | h
    · rfl
    · rfl
    · exact isNumberChar_of_mem_zeros h
    · exact isNumberChar_of_isDigit (hdigits c h)
  · simp only [List.mem_append, List.mem_cons] at h
    rcases h with (h | h) | rfl | h
    · exact isNumberChar_of_isDigit (hdigits c (List.mem_of_mem_take h))
    · exact isNumberChar_of_mem_zeros h
    · rfl
    · split at h
      · rw [List.mem_singleton.1 h]
        rfl
      · exact isNumberChar_of_isDigit (hdigits c (List.mem_of_mem_drop h))

/-- A number with an exponent is made of characters of numbers. -/
theorem isNumberChar_of_mem_scientific (hdigits : ∀ c ∈ digits, isDigit c = true) {power : Int}
    {c : Char} (h : c ∈ scientific digits power) : isNumberChar c = true := by
  unfold scientific at h
  simp only [List.mem_append, List.mem_cons] at h
  rcases h with (h | h) | rfl | h | h
  · exact isNumberChar_of_isDigit (hdigits c (List.mem_of_mem_take h))
  · split at h
    · exact absurd h List.not_mem_nil
    · rcases List.mem_cons.1 h with rfl | h
      · rfl
      · exact isNumberChar_of_isDigit (hdigits c (List.mem_of_mem_drop h))
  · rfl
  · rw [h]
    split <;> rfl
  · exact isNumberChar_of_isDigit (isDigit_of_mem_toDigits h)

/-- The text of a double is made of characters of numbers. -/
theorem isNumberChar_of_mem_doubleText {d : Double} {c : Char} (h : c ∈ d.text.toList) :
    isNumberChar c = true := by
  rw [Double.text, Double.textWith, String.toList_ofList] at h
  have hunsigned : ∀ power : Int, c ∈ (if Layout.standard.leastPositional ≤ power ∧
        power ≤ Layout.standard.greatestPositional then
      positional (Nat.toDigits 10 (shortest d).digits) power
      else scientific (Nat.toDigits 10 (shortest d).digits) power) → isNumberChar c = true := by
    intro power hc
    split at hc
    · exact isNumberChar_of_mem_positional (fun _ => isDigit_of_mem_toDigits) hc
    · exact isNumberChar_of_mem_scientific (fun _ => isDigit_of_mem_toDigits) hc
  split at h
  · rcases List.mem_cons.1 h with rfl | h
    · rfl
    · exact hunsigned _ h
  · exact hunsigned _ h

/-- The text of an integer is made of characters of numbers. -/
theorem isNumberChar_of_mem_intText {i : Int} {c : Char} (h : c ∈ (intText i).toList) :
    isNumberChar c = true := by
  rw [toList_intText] at h
  split at h
  · rcases List.mem_cons.1 h with rfl | h
    · rfl
    · exact isNumberChar_of_isDigit (isDigit_of_mem_toDigits h)
  · exact isNumberChar_of_isDigit (isDigit_of_mem_toDigits h)

/-! ### Reading written numbers -/

/-- Characters among which one is no digit are no number. -/
theorem digits?_of_mem {cs : List Char} {c : Char} (h : c ∈ cs) (hc : isDigit c = false) :
    digits? cs = none := by
  have hall : cs.all isDigit = false :=
    List.all_eq_false.2 ⟨c, h, Bool.eq_false_iff.1 hc⟩
  rw [digits?, hall, Bool.and_false, if_neg Bool.false_ne_true]

/-- An integer is read as sign and digits, and kept if it fits into 64 bits. -/
theorem int64?_eq (cs : List Char) : int64? cs =
    ((digits? (cutSign cs).2).map fun n : Nat =>
      if (cutSign cs).1 then -(n : Int) else (n : Int)).filter fun i : Int =>
        -(twoPow 63 : Nat) ≤ i ∧ i < (twoPow 63 : Nat) := by
  rw [int64?]
  obtain ⟨negative, rest⟩ := cutSign cs
  simp only
  cases digits? rest <;> rfl

/-- A text with a point or the letter `e` is no integer. -/
theorem int64?_of_mem {cs : List Char} {c : Char} (h : c ∈ cs) (hc : isDigit c = false)
    (hminus : c ≠ '-') (hplus : c ≠ '+') : int64? cs = none := by
  have hrest : c ∈ (cutSign cs).2 := by
    unfold cutSign
    split
    · exact (List.mem_cons.1 h).resolve_left hminus
    · exact (List.mem_cons.1 h).resolve_left hplus
    · exact h
  rw [int64?_eq, digits?_of_mem hrest hc, Option.map_none, Option.filter_none]

/-- The text of a double is no integer. -/
theorem int64?_doubleText (d : Double) : int64? d.text.toList = none := by
  have hmark : '.' ∈ d.text.toList ∨ 'e' ∈ d.text.toList := by
    have hunsigned : ∀ (digits : List Char) (power : Int), '.' ∈ positional digits power ∧
        'e' ∈ scientific digits power := by
      intro digits power
      constructor
      · unfold positional
        split <;> simp
      · simp [scientific]
    rw [Double.text, Double.textWith, String.toList_ofList]
    split <;> split <;> simp [hunsigned]
  rcases hmark with h | h
  · exact int64?_of_mem h (by decide) (by decide) (by decide)
  · exact int64?_of_mem h (by decide) (by decide) (by decide)

/-- Reading the text of an integer of 64 bits gives the integer. -/
theorem int64?_intText {i : Int} (h : -(twoPow 63 : Nat) ≤ i ∧ i < (twoPow 63 : Nat)) :
    int64? (intText i).toList = some i := by
  have hsign : cutSign (intText i).toList = (decide (i < 0), Nat.toDigits 10 i.natAbs) := by
    rw [toList_intText]
    by_cases hneg : i < 0
    · rw [if_pos hneg, decide_eq_true hneg]
      rfl
    · have hminus : ∀ rest, Nat.toDigits 10 i.natAbs ≠ '-' :: rest := by
        intro rest heq
        have hdigit : isDigit '-' = true :=
          isDigit_of_mem_toDigits (n := i.natAbs) (heq ▸ List.mem_cons_self)
        exact absurd hdigit (by decide)
      rw [if_neg hneg, decide_eq_false hneg]
      unfold cutSign
      split
      · rename_i heq
        exact absurd heq (hminus _)
      · rename_i heq
        exact absurd heq (toDigits_ne_plus _ _)
      · rfl
  have hvalue : (if decide (i < 0) then -(i.natAbs : Int) else (i.natAbs : Int)) = i := by
    split
    · rename_i hneg
      rw [decide_eq_true_eq] at hneg
      omega
    · rename_i hneg
      rw [decide_eq_true_eq] at hneg
      omega
  rw [int64?_eq, hsign, digits?_toDigits, Option.map_some, hvalue, Option.filter_eq_some_iff]
  exact ⟨rfl, decide_eq_true h⟩

/-- The text of a double is read as the double. -/
def Double.ReadsBack (d : Double) : Prop :=
  double? d.text.toList = some d

end QueryFilter.Decimal

namespace QueryFilter.Number

open Decimal

/-- Numbers are written with digits, signs, a point and the letter `e`. -/
theorem isNumberChar_of_mem_text {n : Number} {c : Char} (h : c ∈ n.text.toList) :
    isNumberChar c = true := by
  cases n with
  | integer i => exact isNumberChar_of_mem_intText h
  | double d => exact isNumberChar_of_mem_doubleText h

end QueryFilter.Number
