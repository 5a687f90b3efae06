import Mathlib.Data.Nat.Digits.Lemmas
import RefinementTables.Decimal

/-!
Digits, and the written forms of decimals.

* `digitsOf_eq_reverse_digits`, `length_digitsOf` — the digits of a number are those of
  Mathlib, and their count is a logarithm.
* `ofDigits_zeros_append`, `ofDigits_append_zeros` — zeros in front of digits change
  nothing, and each zero behind them is a factor of ten.
* `denotes_positional`, `denotes_scientific` — both notations are digits, perhaps a
  point with digits behind it, and perhaps an exponent, and stand for their decimal.
-/

namespace RefinementTables

/-! ### Digits -/

theorem digitsOf_eq_reverse_digits {n : Nat} (pos : 0 < n) :
    digitsOf n = (Nat.digits 10 n).reverse := by
  fun_induction digitsOf n with
  | case1 n below => rw [Nat.digits_of_lt 10 n (by omega) below, List.reverse_singleton]
  | case2 n above ih =>
    rw [Nat.digits_def' (by decide) pos, List.reverse_cons, ih (by omega)]

theorem length_digitsOf {n : Nat} (pos : 0 < n) : (digitsOf n).length = Nat.log 10 n + 1 := by
  rw [digitsOf_eq_reverse_digits pos, List.length_reverse,
    Nat.length_digits 10 n (by decide) (by omega)]

/-- Digits are below ten. -/
theorem digitsOf_lt {n d : Nat} (mem : d ∈ digitsOf n) : d < 10 := by
  fun_induction digitsOf n with
  | case1 n below =>
    rw [List.mem_singleton.mp mem]
    exact below
  | case2 n above ih =>
    rcases List.mem_append.mp mem with front | last
    · exact ih front
    · rw [List.mem_singleton.mp last]
      exact Nat.mod_lt n (by decide)

theorem digitsOf_mul_ten {n : Nat} (pos : 0 < n) : digitsOf (10 * n) = digitsOf n ++ [0] := by
  rw [digitsOf, if_neg (by omega), Nat.mul_div_cancel_left n (by decide), Nat.mul_mod_right]

/-- Zeros in front of digits change nothing. -/
theorem ofDigits_zeros_append (k : Nat) (ds : List Nat) :
    ofDigits (List.replicate k 0 ++ ds) = ofDigits ds := by
  induction k with
  | zero => rfl
  | succ k ih => exact ih

/-- Each zero behind digits is a factor of ten. -/
theorem ofDigits_append_zeros (ds : List Nat) (k : Nat) :
    ofDigits (ds ++ List.replicate k 0) = ofDigits ds * 10 ^ k := by
  induction k with
  | zero => simp
  | succ k ih =>
    rw [List.replicate_succ', ← List.append_assoc, ofDigits_append, ih, Nat.pow_succ, Nat.add_zero]
    ac_rfl

theorem isDigit_digitChar : ∀ d < 10, (digitChar d).isDigit = true := by decide

theorem toNat_digitChar : ∀ d < 10, (digitChar d).toNat - '0'.toNat = d := by decide

/-! ### Written forms -/

namespace Decimal

/-- An exponent as it is written. -/
def power (e : Int) : List Char :=
  (if e < 0 then ['-'] else []) ++ numeral e.natAbs

/-- Digits, a point with the digits behind it if there are any, and an exponent if
there is one. -/
def layout (whole fraction : List Nat) (exponent : Option Int) : List Char :=
  whole.map digitChar ++ (if fraction = [] then [] else '.' :: fraction.map digitChar) ++
    exponent.elim [] fun e => 'e' :: power e

/-- A text that is laid out with at least one digit before the point, and the decimal
that the digits and the exponent stand for. -/
def Denotes (text : List Char) (d : Decimal) : Prop :=
  ∃ whole fraction exponent, text = layout whole fraction exponent ∧ whole ≠ [] ∧
    (∀ digit ∈ whole ++ fraction, digit < 10) ∧
    d = ⟨ofDigits (whole ++ fraction), exponent.getD 0 - fraction.length⟩

/-- Positional notation stands for the decimal, with the zeros up to the point taken
into the coefficient. -/
theorem denotes_positional (d : Decimal) :
    Denotes d.positional ⟨d.coefficient * 10 ^ d.exponent.toNat, min d.exponent 0⟩ := by
  obtain ⟨coefficient, exponent⟩ := d
  cases exponent with
  | ofNat zeros =>
    refine ⟨digitsOf coefficient ++ List.replicate zeros 0, [], none, ?_, ?_, ?_, ?_⟩
    · have zero : digitChar 0 = '0' := rfl
      simp [positional, layout, numeral, zero]
    · exact List.append_ne_nil_of_left_ne_nil (digitsOf_ne_nil coefficient) _
    · intro digit mem
      rw [List.append_nil, List.mem_append] at mem
      rcases mem with mem | mem
      · exact digitsOf_lt mem
      · rw [List.eq_of_mem_replicate mem]
        decide
    · rw [List.append_nil, ofDigits_append_zeros, ofDigits_digitsOf]
      simp
  | negSucc k =>
    -- The digits with enough zeros in front of them, cut before the last `k + 1`.
    let padded := List.replicate (k + 2 - (digitsOf coefficient).length) 0 ++ digitsOf coefficient
    let before := padded.length - (k + 1)
    have long : k + 1 < padded.length := by
      simp only [padded, List.length_append, List.length_replicate]
      omega
    have chars : List.replicate (k + 2 - (digitsOf coefficient).length) '0' ++ numeral coefficient =
        padded.map digitChar := by
      have zero : digitChar 0 = '0' := rfl
      simp [padded, numeral, zero]
    have places : (padded.drop before).length = k + 1 := by
      rw [List.length_drop]
      omega
    refine ⟨padded.take before, padded.drop before, none, ?_, ?_, ?_, ?_⟩
    · have fraction : padded.drop before ≠ [] := List.ne_nil_of_length_eq_add_one places
      have count : (numeral coefficient).length = (digitsOf coefficient).length := List.length_map _
      simp only [positional, pointed, count, chars, layout, if_neg fraction, List.length_map,
        List.map_take, List.map_drop, Option.elim_none, List.append_nil, before]
    · exact List.ne_nil_of_length_pos (by rw [List.length_take]; omega)
    · intro digit mem
      rw [List.take_append_drop, List.mem_append] at mem
      rcases mem with mem | mem
      · rw [List.eq_of_mem_replicate mem]
        decide
      · exact digitsOf_lt mem
    · rw [List.take_append_drop, ofDigits_zeros_append, ofDigits_digitsOf, places]
      simp only [Int.toNat_negSucc, Nat.pow_zero, Nat.mul_one, Option.getD_none, mk.injEq,
        true_and]
      omega

/-- Scientific notation stands for the decimal. -/
theorem denotes_scientific (d : Decimal) : Denotes d.scientific d := by
  obtain ⟨first, rest, digits⟩ := List.exists_cons_of_ne_nil (digitsOf_ne_nil d.coefficient)
  refine ⟨[first], rest, some (d.place - 1), ?_, by simp, ?_, ?_⟩
  · rw [scientific, numeral, digits]
    cases rest <;> simp [layout, power]
  · intro digit mem
    rw [List.singleton_append, ← digits] at mem
    exact digitsOf_lt mem
  · have value : ofDigits ([first] ++ rest) = d.coefficient := by
      rw [List.singleton_append, ← digits, ofDigits_digitsOf]
    have place : d.place = rest.length + 1 + d.exponent := by
      rw [Decimal.place, digits, List.length_cons]
      rfl
    rw [value, place, Option.getD_some]
    obtain ⟨coefficient, exponent⟩ := d
    simp only [mk.injEq, true_and]
    omega

end Decimal

end RefinementTables
