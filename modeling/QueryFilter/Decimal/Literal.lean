import QueryFilter.Decimal.Power
import QueryFilter.Decimal.Shortest

/-!
# Decimal literals

Reading of integers and of decimal literals, and writing of doubles.

A literal is an optional sign, digits with at most one point among or around them, and an optional
power of ten: `18`, `-2.5`, `5.`, `.5`, `+1E5`.  Names of infinities are no literals, and neither is
a literal whose value is not finite.
-/

namespace QueryFilter.Decimal

/-- Whether a character is an ASCII digit. -/
def isDigit (c : Char) : Bool :=
  '0' ≤ c && c ≤ '9'

/-- The value of a digit. -/
def digitValue (c : Char) : Nat :=
  c.toNat - 0x30

/-- The number that digits, most significant first, stand for, after the number `start`. -/
def digitsValue (start : Nat) (cs : List Char) : Nat :=
  cs.foldl (fun n c => 10 * n + digitValue c) start

/-- The digits of a natural. -/
def natText (n : Nat) : String :=
  String.ofList (Nat.toDigits 10 n)

/-- The digits of an integer, after a minus sign if it is negative. -/
def intText (i : Int) : String :=
  if i < 0 then "-" ++ natText i.natAbs else natText i.natAbs

/-- The natural that a text of digits alone stands for. -/
def digits? (cs : List Char) : Option Nat :=
  if !cs.isEmpty && cs.all isDigit then some (digitsValue 0 cs) else none

/-- The natural below `bound` that an optional plus sign and digits stand for. -/
def natBelow? (bound : Nat) (cs : List Char) : Option Nat :=
  let value := match cs with
    | '+' :: rest => digits? rest
    | _ => digits? cs
  value.filter (· < bound)

/-- A sign and the rest after it. -/
def cutSign : List Char → Bool × List Char
  | '-' :: cs => (true, cs)
  | '+' :: cs => (false, cs)
  | cs => (false, cs)

/-- The integer of 64 bits that an optional sign and digits stand for. -/
def int64? (cs : List Char) : Option Int :=
  let (negative, rest) := cutSign cs
  let value := (digits? rest).map fun n => if negative then -(n : Int) else n
  value.filter fun i => -(twoPow 63 : Nat) ≤ i ∧ i < (twoPow 63 : Nat)

/-- The power of ten after the mark `e` or `E`, or zero if nothing is left. -/
def exponent? : List Char → Option Int
  | [] => some 0
  | c :: cs =>
    if c = 'e' ∨ c = 'E' then
      let (negative, rest) := cutSign cs
      (digits? rest).map fun n => if negative then -(n : Int) else n
    else none

/-- The double nearest to a decimal literal, unless that is not finite. -/
def double? (cs : List Char) : Option Double :=
  let (negative, unsigned) := cutSign cs
  let whole := unsigned.takeWhile isDigit
  let afterWhole := unsigned.dropWhile isDigit
  let (fraction, rest) := match afterWhole with
    | '.' :: cs => (cs.takeWhile isDigit, cs.dropWhile isDigit)
    | _ => ([], afterWhole)
  if whole.isEmpty && fraction.isEmpty then none
  else (exponent? rest).bind fun power =>
    Double.ofDecimal negative (digitsValue 0 (whole ++ fraction)) (power - fraction.length)

/-- The choices in the writing of a double: the powers of ten of the leading digit that are written
positionally. -/
structure Layout where
  leastPositional : Int
  greatestPositional : Int

/-- Powers of ten from -5 to 15 are written positionally. -/
def Layout.standard : Layout := ⟨-5, 15⟩

/-- Zeros, so many of them. -/
def zeros (n : Nat) : List Char :=
  List.replicate n '0'

/-- Positional notation, always with a fraction, of digits whose first one stands at a power of
ten. -/
def positional (digits : List Char) (power : Int) : List Char :=
  if power < 0 then '0' :: '.' :: zeros (-power - 1).toNat ++ digits
  else
    let whole := digits.take (power.toNat + 1)
    let fraction := digits.drop (power.toNat + 1)
    whole ++ zeros (power.toNat + 1 - digits.length) ++ '.' ::
      (if fraction.isEmpty then ['0'] else fraction)

/-- Scientific notation, always with a sign in the exponent, of digits whose first one stands at a
power of ten. -/
def scientific (digits : List Char) (power : Int) : List Char :=
  let fraction := digits.drop 1
  digits.take 1 ++ (if fraction.isEmpty then [] else '.' :: fraction) ++
    'e' :: (if power < 0 then '-' else '+') :: Nat.toDigits 10 power.natAbs

/-- The text of a double: the fewest digits that read back, laid out as asked. -/
def Double.textWith (layout : Layout) (d : Double) : String :=
  let decimal := shortest d
  let digits := Nat.toDigits 10 decimal.digits
  let power := decimal.exponent + digits.length - 1
  let unsigned :=
    if layout.leastPositional ≤ power ∧ power ≤ layout.greatestPositional then
      positional digits power
    else scientific digits power
  String.ofList (if d.negative then '-' :: unsigned else unsigned)

/-- The text of a double. -/
def Double.text (d : Double) : String :=
  d.textWith .standard

/-! ### Small lemmas -/

@[simp] theorem digits?_nil : digits? [] = none := rfl

@[simp] theorem double?_nil : double? [] = none := rfl

/-- What is read as an integer fits into 64 bits. -/
theorem int64?_bounds {cs : List Char} {i : Int} (h : int64? cs = some i) :
    -(twoPow 63 : Nat) ≤ i ∧ i < (twoPow 63 : Nat) := by
  simp only [int64?, Option.filter_eq_some_iff] at h
  simpa using h.2

end QueryFilter.Decimal
