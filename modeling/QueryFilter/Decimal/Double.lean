import QueryFilter.Decimal.Power

/-!
# Finite doubles

A finite binary floating point number of 64 bits, as a sign, a significand of at most 53 bits and a
power of two.  The numbers are exact: `ratio` is the magnitude as a fraction of naturals, `ofRatio`
rounds a fraction to the nearest double, a tie going to the even significand.

The proof fields make the representation unique, apart from the two signs of zero.
-/

namespace QueryFilter.Decimal

/-- The least power of two of a double. -/
def minExponent : Int := -1074

/-- The greatest power of two of a finite double. -/
def maxExponent : Int := 971

/-- A finite double: `significand * 2 ^ exponent`, with a sign. -/
structure Double where
  negative : Bool
  significand : Nat
  exponent : Int
  significand_lt : significand < twoPow 53
  minExponent_le : minExponent ≤ exponent
  exponent_le : exponent ≤ maxExponent
  normal : twoPow 52 ≤ significand ∨ exponent = minExponent
  deriving DecidableEq

namespace Double

/-- The double of given parts, if they are those of a finite double. -/
def ofParts (negative : Bool) (significand : Nat) (exponent : Int) : Option Double :=
  if h : significand < twoPow 53 ∧ minExponent ≤ exponent ∧ exponent ≤ maxExponent ∧
      (twoPow 52 ≤ significand ∨ exponent = minExponent) then
    some ⟨negative, significand, exponent, h.1, h.2.1, h.2.2.1, h.2.2.2⟩
  else none

/-- Zero of either sign. -/
def zero (negative : Bool) : Double :=
  ⟨negative, 0, minExponent, by decide, by decide, by decide, .inr rfl⟩

instance : Inhabited Double := ⟨zero false⟩

/-- Whether a double is zero. -/
def isZero (d : Double) : Bool :=
  d.significand == 0

/-- The double with the other sign. -/
def neg (d : Double) : Double :=
  { d with negative := !d.negative }

/-- The magnitude as a numerator and a denominator. -/
def ratio (d : Double) : Nat × Nat :=
  (d.significand * twoPow d.exponent.toNat, twoPow (-d.exponent).toNat)

/-- A quotient rounded to the nearest natural, a tie going to the even one. -/
def roundQuotient (num den : Nat) : Nat :=
  let quotient := num / den
  let rest := num % den
  if 2 * rest < den ∨ (2 * rest = den ∧ quotient % 2 = 0) then quotient else quotient + 1

/-- The power of two by which a positive fraction is scaled: the significand then has 53 bits, or
fewer when the power is the least one. -/
def scaleOf (num den : Nat) : Int :=
  let guess : Int := (num.log2 : Int) - den.log2 - 52
  let below := num * twoPow (-guess).toNat < den * twoPow guess.toNat * twoPow 52
  max minExponent (if below then guess - 1 else guess)

/-- The double nearest to a fraction, or none when that is not finite. -/
def ofRatio (negative : Bool) (num den : Nat) : Option Double :=
  if num = 0 then some (zero negative)
  else
    let scale := scaleOf num den
    let significand := roundQuotient (num * twoPow (-scale).toNat) (den * twoPow scale.toNat)
    if significand = twoPow 53 then ofParts negative (twoPow 52) (scale + 1)
    else ofParts negative significand scale

/-- The double nearest to `digits * 10 ^ exponent`, or none when that is not finite.  Powers of ten
that are out of reach of every double are not computed. -/
def ofDecimal (negative : Bool) (digits : Nat) (exponent : Int) : Option Double :=
  if digits = 0 then some (zero negative)
  else if exponent > 400 then none
  else if exponent + (Nat.toDigits 10 digits).length < -400 then some (zero negative)
  else ofRatio negative (digits * tenPow exponent.toNat) (tenPow (-exponent).toNat)

/-- The double nearest to a product, or none when that is not finite. -/
def mul (a b : Double) : Option Double :=
  ofRatio (a.negative != b.negative) (a.ratio.1 * b.ratio.1) (a.ratio.2 * b.ratio.2)

/-- The double nearest to a quotient by a number other than zero, or none when that is not
finite. -/
def div (a b : Double) : Option Double :=
  ofRatio (a.negative != b.negative) (a.ratio.1 * b.ratio.2) (a.ratio.2 * b.ratio.1)

/-! ### Small lemmas -/

/-- Both zeros are zero. -/
@[simp] theorem isZero_zero (negative : Bool) : (zero negative).isZero = true := rfl

/-- Turning the sign twice changes nothing. -/
@[simp] theorem neg_neg (d : Double) : d.neg.neg = d := by
  cases d; simp [neg]

/-- The quotient of a double has a positive denominator. -/
theorem ratio_den_pos (d : Double) : 0 < d.ratio.2 :=
  twoPow_pos _

/-- Zero over anything is rounded to the zero with this sign. -/
@[simp] theorem ofRatio_zero (negative : Bool) (den : Nat) :
    ofRatio negative 0 den = some (zero negative) := by
  simp [ofRatio]

end Double

end QueryFilter.Decimal
