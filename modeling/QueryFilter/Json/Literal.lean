import QueryFilter.Decimal.Literal
import QueryFilter.Decimal.Power
import QueryFilter.Json.Basic

/-!
# Number literals of JSON

A literal without point and power of ten is an integer if it fits 64 bits, with or without sign; the
literal `-0` and every other one is a double.

A double is computed from a significand of at most 64 bits and a power of ten, each rounded to a
double, and their product or quotient rounded once more.  Digits beyond the significand count as
zeros.
-/

namespace QueryFilter.Json

open Decimal

/-- The bound of a significand, and of an integer without sign. -/
def significandBound : Nat := twoPow 64

/-- The greatest power of ten that is a finite double. -/
def greatestPower : Nat := 308

/-- The double nearest to a power of ten. -/
def powerOfTen (n : Nat) : Double :=
  (Double.ofDecimal false 1 n).getD (Double.zero false)

/-- A significand and a power of ten as one double, or none if it is not finite. -/
def fromParts (negative : Bool) (significand : Nat) (power : Int) : Option Double :=
  (Double.ofDecimal negative significand 0).bind fun start =>
    if start.isZero then some start
    else if power > greatestPower then none
    else if power ≥ 0 then start.mul (powerOfTen power.toNat)
    else if power ≥ -greatestPower then start.div (powerOfTen (-power).toNat)
    else if power < -2 * greatestPower then some (Double.zero negative)
    else (start.div (powerOfTen greatestPower)).bind fun scaled =>
      scaled.div (powerOfTen (-power - greatestPower).toNat)

/-- Appends digits to a significand as long as it keeps within its bound; the second component
counts the digits that were left. -/
def appendDigits (significand : Nat) : List Char → Nat × Nat
  | [] => (significand, 0)
  | c :: cs =>
    let next := 10 * significand + digitValue c
    if next < significandBound then appendDigits next cs else (significand, cs.length + 1)

/-- The pieces of a number literal. -/
structure Literal where
  negative : Bool
  whole : List Char
  fraction : Option (List Char)
  power : Option (Bool × List Char)

/-- The power of ten that a literal ends with; none when it is beyond 32 bits. -/
def Literal.statedPower? (literal : Literal) : Option Int :=
  match literal.power with
  | none => some 0
  | some (negative, digits) =>
    let n := digitsValue 0 digits
    if n < twoPow 31 then some (if negative then -(n : Int) else n) else none

/-- The value of a literal, or none when it is not finite. -/
def Literal.value? (literal : Literal) : Option Number :=
  let (significand, left) := appendDigits 0 literal.whole
  if literal.fraction.isNone && literal.power.isNone && left = 0 then
    if !literal.negative then some (.integer significand)
    else if significand ≠ 0 ∧ significand ≤ twoPow 63 then some (.integer (-(significand : Int)))
    else (Double.ofDecimal true significand 0).map .double
  else
    let digits := literal.fraction.getD []
    let (extended, ignored) := appendDigits significand digits
    let power : Int := (left : Int) - (digits.length - ignored : Nat)
    match literal.statedPower? with
    | some stated => (fromParts literal.negative extended (power + stated)).map .double
    | none =>
      if extended ≠ 0 ∧ (literal.power.map Prod.fst) = some false then none
      else some (.double (Double.zero literal.negative))

/-- The digits at the beginning of a text, of which there must be one, and the rest. -/
def someDigits? (cs : List Char) : Option (List Char × List Char) :=
  let digits := cs.takeWhile isDigit
  if digits.isEmpty then none else some (digits, cs.dropWhile isDigit)

/-- The whole digits at the beginning of a text: a lone zero, or digits that do not start with
one. -/
def wholeDigits? (cs : List Char) : Option (List Char × List Char) :=
  (someDigits? cs).filter fun parts => parts.1.head? ≠ some '0' || parts.1.length = 1

/-- The fraction at the beginning of a text, if a point is there. -/
def fraction? : List Char → Option (Option (List Char) × List Char)
  | '.' :: cs => (someDigits? cs).map fun parts => (some parts.1, parts.2)
  | cs => some (none, cs)

/-- The power of ten at the beginning of a text, if its mark is there. -/
def power? : List Char → Option (Option (Bool × List Char) × List Char)
  | [] => some (none, [])
  | c :: cs =>
    if c = 'e' ∨ c = 'E' then
      let (negative, rest) := cutSign cs
      (someDigits? rest).map fun parts => (some (negative, parts.1), parts.2)
    else some (none, c :: cs)

/-- The literal at the beginning of a text, and the rest after it. -/
def literal? (cs : List Char) : Option (Literal × List Char) := do
  let (negative, unsigned) := match cs with
    | '-' :: rest => (true, rest)
    | _ => (false, cs)
  let (whole, afterWhole) ← wholeDigits? unsigned
  let (fraction, afterFraction) ← fraction? afterWhole
  let (power, rest) ← power? afterFraction
  return (⟨negative, whole, fraction, power⟩, rest)

end QueryFilter.Json
