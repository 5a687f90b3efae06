import RefinementTables.Binary64.Basic
import RefinementTables.Decimal

/-!
The double nearest to a fraction or to a decimal, in exact arithmetic.

A half goes to the even neighbour, what is too large becomes infinity and what
is too small becomes zero. The result depends only on the value of the fraction,
not on how it is written.
-/

namespace RefinementTables

/-- A quotient rounded to the nearest whole number, a half to the even one. -/
def roundHalfEven (numerator denominator : Nat) : Nat :=
  let quotient := numerator / denominator
  let twice := 2 * (numerator % denominator)
  if twice < denominator then quotient
  else if denominator < twice then quotient + 1
  else quotient + quotient % 2

namespace Binary64

/-- The magnitude nearest to `numerator / denominator`. In units of the least
positive number the fraction is `scaled / denominator`; the shift is the number
of bits it has beyond fifty-three, and a significand that rounds up to
`2 ^ 53` carries into the shift by itself. -/
def nearest (numerator denominator : Nat) : Nat :=
  let scaled := numerator * Nat.pow 2 unitPower
  let shift := (scaled / denominator).log2 - 52
  min (shift * Nat.pow 2 52 + roundHalfEven scaled (denominator * Nat.pow 2 shift)) infinityMagnitude

/-- The magnitude nearest to a decimal. A decimal beyond every finite number or
below every positive one is settled by its place, whatever its exponent. -/
def nearestDecimal (d : Decimal) : Nat :=
  if d.coefficient = 0 then 0
  else if 310 < d.place then infinityMagnitude
  else if d.place < -330 then 0
  else match d.exponent with
    | .ofNat e => nearest (d.coefficient * Nat.pow 10 e) 1
    | .negSucc k => nearest d.coefficient (Nat.pow 10 (k + 1))

theorem nearest_le (numerator denominator : Nat) :
    nearest numerator denominator ≤ infinityMagnitude :=
  Nat.min_le_right _ _

theorem nearestDecimal_le (d : Decimal) : nearestDecimal d ≤ infinityMagnitude := by
  unfold nearestDecimal
  split
  · exact Nat.zero_le _
  · split
    · exact Nat.le_refl _
    · split
      · exact Nat.zero_le _
      · split <;> exact nearest_le _ _

theorem infinityMagnitude_lt : infinityMagnitude < Nat.pow 2 63 := by decide

/-- The number of a given sign nearest to a decimal. -/
def ofDecimal (negative : Bool) (d : Decimal) : Binary64 where
  negative := negative
  magnitude := nearestDecimal d
  magnitude_lt := Nat.lt_of_le_of_lt (nearestDecimal_le d) infinityMagnitude_lt

/-- Infinity of a given sign. -/
def infinity (negative : Bool) : Binary64 where
  negative := negative
  magnitude := infinityMagnitude
  magnitude_lt := infinityMagnitude_lt

/-- The value that is no number. -/
def notANumber (negative : Bool) : Binary64 where
  negative := negative
  magnitude := infinityMagnitude + Nat.pow 2 51
  magnitude_lt := by decide

end Binary64

end RefinementTables
