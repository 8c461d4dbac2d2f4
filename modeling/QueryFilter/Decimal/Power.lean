/-!
# Powers of two and of ten

Powers of the two bases of numbers and of their texts.
-/

namespace QueryFilter.Decimal

/-- A power of two. -/
def twoPow (n : Nat) : Nat :=
  Nat.pow 2 n

/-- A power of ten. -/
def tenPow (n : Nat) : Nat :=
  Nat.pow 10 n

/-! ### Small lemmas -/

/-- Two to the power of zero is one. -/
@[simp] theorem twoPow_zero : twoPow 0 = 1 := rfl

/-- Ten to the power of zero is one. -/
@[simp] theorem tenPow_zero : tenPow 0 = 1 := rfl

/-- Each power of two is twice the one before. -/
theorem twoPow_succ (n : Nat) : twoPow (n + 1) = twoPow n * 2 := rfl

/-- Each power of ten is ten times the one before. -/
theorem tenPow_succ (n : Nat) : tenPow (n + 1) = tenPow n * 10 := rfl

/-- Powers of two are positive, so that they can be divided by. -/
theorem twoPow_pos (n : Nat) : 0 < twoPow n :=
  Nat.pow_pos (by decide)

/-- Powers of ten are positive, so that they can be divided by. -/
theorem tenPow_pos (n : Nat) : 0 < tenPow n :=
  Nat.pow_pos (by decide)

end QueryFilter.Decimal
