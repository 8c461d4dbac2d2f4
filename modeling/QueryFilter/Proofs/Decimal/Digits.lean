import QueryFilter.Decimal.Literal

/-!
# Digits of naturals

The digits of a natural are digits, and reading them gives the natural back (`digits?_toDigits`);
so different naturals have different texts (`natText_injective`).
-/

namespace QueryFilter.Decimal

/-- The core library and this one mean the same by a digit. -/
theorem isDigit_eq (c : Char) : isDigit c = c.isDigit := rfl

/-- The digits of a number are digits. -/
theorem isDigit_of_mem_toDigits {n : Nat} {c : Char} (h : c ∈ Nat.toDigits 10 n) :
    isDigit c = true := by
  rw [isDigit_eq]
  exact Nat.isDigit_of_mem_toDigits (by decide) (by decide) h

/-- The value of digits is that of the standard library. -/
theorem digitsValue_eq (start : Nat) (cs : List Char) :
    digitsValue start cs = Nat.ofDigitChars 10 cs start :=
  Nat.ofDigitChars_eq_foldl.symm

/-- Digits, after any zeros, stand for the natural they were written for. -/
theorem digitsValue_toDigits (zeros n : Nat) :
    digitsValue 0 (List.replicate zeros '0' ++ Nat.toDigits 10 n) = n := by
  rw [digitsValue_eq, Nat.ofDigitChars_append, Nat.ofDigitChars_replicate_zero, Nat.mul_zero,
    Nat.ofDigitChars_ten_toDigits]

/-- Reading digits is the inverse of writing them. -/
theorem digits?_toDigits (n : Nat) : digits? (Nat.toDigits 10 n) = some n := by
  have hne : Nat.toDigits 10 n ≠ [] := Nat.toDigits_ne_nil
  have hall : (Nat.toDigits 10 n).all isDigit = true :=
    List.all_eq_true.2 fun c => isDigit_of_mem_toDigits
  have hvalue : digitsValue 0 (Nat.toDigits 10 n) = n := digitsValue_toDigits 0 n
  simp [digits?, hne, hall, hvalue]

/-- Digits do not begin with a sign. -/
theorem toDigits_ne_plus (n : Nat) (rest : List Char) : Nat.toDigits 10 n ≠ '+' :: rest := by
  intro h
  have hdigit : isDigit '+' = true := isDigit_of_mem_toDigits (n := n) (h ▸ List.mem_cons_self)
  exact absurd hdigit (by decide)

/-- The digits of a number are read back as the number, if it is below the bound. -/
theorem natBelow?_toDigits (bound n : Nat) :
    natBelow? bound (Nat.toDigits 10 n) = (some n).filter (· < bound) := by
  rw [natBelow?, digits?_toDigits]
  exact toDigits_ne_plus n

/-- A natural number has at least one digit. -/
theorem natText_ne_empty (n : Nat) : natText n ≠ "" := by
  intro h
  have hnil := congrArg String.toList h
  rw [natText, String.toList_ofList] at hnil
  exact Nat.toDigits_ne_nil hnil

/-- The text of a natural number is made of digits. -/
theorem isDigit_of_mem_natText {n : Nat} {c : Char} (h : c ∈ (natText n).toList) :
    isDigit c = true := by
  rw [natText, String.toList_ofList] at h
  exact isDigit_of_mem_toDigits h

/-- No two natural numbers share a text. -/
theorem natText_injective {a b : Nat} (h : natText a = natText b) : a = b := by
  have hdigits : Nat.toDigits 10 a = Nat.toDigits 10 b := String.ofList_injective h
  have hread := digits?_toDigits a
  rw [hdigits, digits?_toDigits] at hread
  exact (Option.some.inj hread).symm

/-- The text of an integer is its digits, after a sign if it is negative. -/
theorem toList_intText (i : Int) : (intText i).toList =
    if i < 0 then '-' :: Nat.toDigits 10 i.natAbs else Nat.toDigits 10 i.natAbs := by
  unfold intText natText
  split
  · rw [String.toList_append, String.toList_ofList]
    simp
  · rw [String.toList_ofList]

/-- The text of an integer is not empty. -/
theorem intText_ne_empty (i : Int) : intText i ≠ "" := by
  intro h
  have hnil := congrArg String.toList h
  rw [toList_intText] at hnil
  split at hnil
  · exact List.cons_ne_nil _ _ hnil
  · exact Nat.toDigits_ne_nil hnil

/-- A natural is written alike as an integer. -/
theorem intText_natCast (n : Nat) : intText (n : Int) = natText n := by
  rw [intText, if_neg (by omega), Int.natAbs_natCast]

end QueryFilter.Decimal
