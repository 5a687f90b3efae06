/-!
Decimal numbers and their written forms.

A decimal is a coefficient and a power of ten. Its digits are those of the
coefficient, most significant first, and its place says where they stand: a
decimal of place `p` lies between `10 ^ (p - 1)` and `10 ^ p`. The written forms
here are for numbers without a sign: positional, scientific, and with a set
number of places after the point.
-/

namespace RefinementTables

/-- The number `coefficient * 10 ^ exponent`. -/
structure Decimal where
  coefficient : Nat
  exponent : Int
deriving DecidableEq, Repr

/-! ### Digits -/

/-- The character of a digit below ten. -/
def digitChar (d : Nat) : Char :=
  Char.ofNat ('0'.toNat + d)

/-- The decimal digits of a number, most significant first; zero has one. -/
def digitsOf (n : Nat) : List Nat :=
  if n < 10 then [n] else digitsOf (n / 10) ++ [n % 10]
termination_by n

/-- The number that a list of digits stands for. -/
def ofDigits (ds : List Nat) : Nat :=
  ds.foldl (fun n d => 10 * n + d) 0

/-- A number written in decimal digits. -/
def numeral (n : Nat) : List Char :=
  (digitsOf n).map digitChar

theorem digitsOf_ne_nil (n : Nat) : digitsOf n ≠ [] := by
  unfold digitsOf
  split <;> simp

theorem ofDigits_append (xs : List Nat) (d : Nat) :
    ofDigits (xs ++ [d]) = 10 * ofDigits xs + d := by
  simp [ofDigits]

/-- The digits of a number stand for it. -/
theorem ofDigits_digitsOf (n : Nat) : ofDigits (digitsOf n) = n := by
  fun_induction digitsOf n with
  | case1 n h => simp [ofDigits]
  | case2 n h ih =>
    rw [ofDigits_append, ih]
    omega

namespace Decimal

/-- The place of the leading digit: the decimal is below `10 ^ place`, and not
below a tenth of that unless it is zero. -/
def place (d : Decimal) : Int :=
  (digitsOf d.coefficient).length + d.exponent

/-- The same number with no zero at the end of its coefficient. -/
def stripZeros (coefficient : Nat) (exponent : Int) : Decimal :=
  if coefficient = 0 then ⟨0, exponent⟩
  else if coefficient % 10 = 0 then stripZeros (coefficient / 10) (exponent + 1)
  else ⟨coefficient, exponent⟩
termination_by coefficient
decreasing_by omega

/-! ### Written forms -/

/-- The digits with a point before the last `places` of them, after as many
leading zeros as it takes to have a digit before the point. -/
def pointed (digits : List Char) (places : Nat) : List Char :=
  let padded := List.replicate (places + 1 - digits.length) '0' ++ digits
  padded.take (padded.length - places) ++ '.' :: padded.drop (padded.length - places)

/-- Positional notation: all digits, zeros up to the point, and no exponent. -/
def positional (d : Decimal) : List Char :=
  match d.exponent with
  | .ofNat zeros => numeral d.coefficient ++ List.replicate zeros '0'
  | .negSucc k => pointed (numeral d.coefficient) (k + 1)

/-- Scientific notation: one digit before the point and the exponent after an
`e`; the point is left out when nothing follows it. -/
def scientific (d : Decimal) : List Char :=
  let exponent := d.place - 1
  let power := (if exponent < 0 then ['-'] else []) ++ numeral exponent.natAbs
  match numeral d.coefficient with
  | [] => []
  | [c] => c :: 'e' :: power
  | c :: cs => c :: '.' :: cs ++ 'e' :: power

/-- A count of units of `10 ^ -places`, written with that many places. -/
def withPlaces (units places : Nat) : List Char :=
  if places = 0 then numeral units else pointed (numeral units) places

end Decimal

end RefinementTables
