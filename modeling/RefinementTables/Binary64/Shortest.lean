import RefinementTables.Binary64.Nearest

/-!
The shortest decimal that reads back as a given double.

On the grid of decimals with `n` digits a value lies between two neighbours. The
first grid of which a neighbour reads back gives the result; when both read
back the nearer one is taken, and the upper one of two equally near. The value
itself, written out in full, is a decimal too, and reads back in any case.
-/

namespace RefinementTables.Binary64

/-- The place of the leading digit of a positive fraction. -/
def fractionPlace (numerator denominator : Nat) : Int :=
  let p := (digitsOf numerator).length
  let q := (digitsOf denominator).length
  let reached :=
    if q ≤ p then denominator * Nat.pow 10 (p - q) ≤ numerator
    else denominator ≤ numerator * Nat.pow 10 (q - p)
  (p : Int) - q + (if reached then 1 else 0)

/-- A fraction in units of `10 ^ exponent`, again as a fraction. -/
def inUnits (numerator denominator : Nat) (exponent : Int) : Nat × Nat :=
  match exponent with
  | .ofNat e => (numerator, denominator * Nat.pow 10 e)
  | .negSucc k => (numerator * Nat.pow 10 (k + 1), denominator)

/-- A finite magnitude as a fraction with as few powers of two as it takes. -/
def fraction (magnitude : Nat) : Nat × Nat :=
  let shift := shift magnitude
  (significand magnitude * Nat.pow 2 (shift - unitPower), Nat.pow 2 (unitPower - shift))

/-- The neighbour of a fraction, on the grid with a given exponent, that reads back
as the magnitude. -/
def onGrid (magnitude numerator denominator : Nat) (exponent : Int) : Option Decimal :=
  let (a, b) := inUnits numerator denominator exponent
  let lower : Decimal := ⟨a / b, exponent⟩
  let upper : Decimal := ⟨a / b + 1, exponent⟩
  match decide (nearestDecimal lower = magnitude), decide (nearestDecimal upper = magnitude) with
  | true, true => some (if 2 * (a % b) < b then lower else upper)
  | true, false => some lower
  | false, true => some upper
  | false, false => none

/-- A finite magnitude as a decimal, without rounding. -/
def exactDecimal (magnitude : Nat) : Decimal :=
  ⟨units magnitude * Nat.pow 5 unitPower, -unitPower⟩

/-- The most digits that a double needs to be told from its neighbours. -/
def enoughDigits : Nat := 17

/-- The shortest decimal that reads back as a finite positive magnitude. -/
def shortest (magnitude : Nat) : Decimal :=
  let (numerator, denominator) := fraction magnitude
  let place := fractionPlace numerator denominator
  let found := (List.range enoughDigits).findSome? fun n =>
    onGrid magnitude numerator denominator (place - (n + 1 : Nat))
  let d := found.getD (exactDecimal magnitude)
  Decimal.stripZeros d.coefficient d.exponent

end RefinementTables.Binary64
