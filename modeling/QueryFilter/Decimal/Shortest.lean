import QueryFilter.Decimal.Double

/-!
# The shortest decimal of a double

`shortest` finds the decimal with the fewest digits that reads back as a given double and, of those,
the nearest one.  For one digit, two digits and so on it looks at the two neighbours of the number
on the grid of decimals with so many digits; seventeen digits always suffice.
-/

namespace QueryFilter.Decimal

/-- The number `digits * 10 ^ exponent`. -/
structure Scaled where
  digits : Nat
  exponent : Int
  deriving DecidableEq, Repr

/-- The number of decimal digits of a natural; zero has one. -/
def digitCount (n : Nat) : Nat :=
  (Nat.toDigits 10 n).length

/-- The power of ten of the leading digit of a positive fraction. -/
def leadingPower (num den : Nat) : Int :=
  if den ≤ num then (digitCount (num / den) : Int) - 1
  else -(digitCount ((den + num - 1) / num - 1) : Int)

/-- Whether a decimal reads back as the magnitude of a double. -/
def readsBack (d : Double) (digits : Nat) (exponent : Int) : Bool :=
  Double.ofDecimal d.negative digits exponent == some d

/-- The decimal without a zero at its end; a neighbour on a grid has at most one, when it is a power
of ten. -/
def Scaled.trimmed (decimal : Scaled) : Scaled :=
  if decimal.digits % 10 = 0 then ⟨decimal.digits / 10, decimal.exponent + 1⟩ else decimal

/-- The neighbours of a double on the grid of multiples of `10 ^ exponent`, the nearer one first; of
two equally near ones the even one comes first. -/
def neighbours (d : Double) (exponent : Int) : List Nat :=
  let num := d.ratio.1 * tenPow (-exponent).toNat
  let den := d.ratio.2 * tenPow exponent.toNat
  let low := num / den
  let rest := num % den
  if 2 * rest < den ∨ (2 * rest = den ∧ low % 2 = 0) then [low, low + 1] else [low + 1, low]

/-- The first neighbour on the grid of multiples of `10 ^ exponent` that reads back. -/
def onGrid? (d : Double) (exponent : Int) : Option Scaled :=
  ((neighbours d exponent).find? fun digits => readsBack d digits exponent).map
    fun digits => ⟨digits, exponent⟩

/-- The first grid with a hit, among those with `count` digits and more. -/
def firstOnGrid (d : Double) (power : Int) : Nat → Nat → Scaled
  | _, 0 => ⟨d.ratio.1 / d.ratio.2, 0⟩
  | count, more + 1 =>
    match onGrid? d (power - count + 1) with
    | some decimal => decimal.trimmed
    | none => firstOnGrid d power (count + 1) more

/-- The decimal with the fewest digits that reads back as the magnitude of a double. -/
def shortest (d : Double) : Scaled :=
  if d.isZero then ⟨0, 0⟩
  else firstOnGrid d (leadingPower d.ratio.1 d.ratio.2) 1 17

/-! ### Small lemmas -/

/-- A hit on a grid reads back. -/
theorem readsBack_of_onGrid? {d : Double} {exponent : Int} {decimal : Scaled}
    (h : onGrid? d exponent = some decimal) :
    readsBack d decimal.digits decimal.exponent = true := by
  obtain ⟨digits, hd, rfl⟩ := Option.map_eq_some_iff.1 h
  simpa using List.find?_some hd

/-- The shortest decimal of both zeros is zero. -/
@[simp] theorem shortest_zero (negative : Bool) : shortest (Double.zero negative) = ⟨0, 0⟩ := rfl

end QueryFilter.Decimal
