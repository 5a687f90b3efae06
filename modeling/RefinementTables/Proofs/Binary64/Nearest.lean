import RefinementTables.Binary64.Shortest
import RefinementTables.Proofs.Decimal

/-!
The double nearest to a decimal.

* `nearest_mul`, `nearestDecimal_mul_ten` — what is nearest depends on the value of a
  fraction or of a decimal only: factors can be cancelled, and a factor of ten can go
  from the coefficient into the exponent.
* `nearest_units` — rounding keeps every finite magnitude.
* `nearestDecimal_shortest` — so the decimal that is chosen for a magnitude reads back
  as that magnitude, also where none of the tried grids has one.
-/

namespace RefinementTables

/-! ### Cancelling factors -/

theorem raised_pos {base : Nat} (pos : 0 < base) (exponent : Nat) : 0 < Nat.pow base exponent :=
  Nat.pow_pos pos

theorem two_raised_pos (exponent : Nat) : 0 < Nat.pow 2 exponent :=
  raised_pos (by decide) exponent

theorem five_raised_pos (exponent : Nat) : 0 < Nat.pow 5 exponent :=
  raised_pos (by decide) exponent

theorem roundHalfEven_mul {k : Nat} (pos : 0 < k) (numerator denominator : Nat) :
    roundHalfEven (k * numerator) (k * denominator) = roundHalfEven numerator denominator := by
  have twice : 2 * (k * (numerator % denominator)) = k * (2 * (numerator % denominator)) :=
    Nat.mul_left_comm 2 k _
  simp only [roundHalfEven, Nat.mul_div_mul_left _ _ pos, Nat.mul_mod_mul_left, twice,
    Nat.mul_lt_mul_left pos]

/-- A whole quotient stays. -/
theorem roundHalfEven_mul_self (quotient : Nat) {denominator : Nat} (pos : 0 < denominator) :
    roundHalfEven (quotient * denominator) denominator = quotient := by
  simp [roundHalfEven, Nat.mul_div_cancel _ pos, pos]

namespace Binary64

theorem nearest_mul {k : Nat} (pos : 0 < k) (numerator denominator : Nat) :
    nearest (k * numerator) (k * denominator) = nearest numerator denominator := by
  simp only [nearest, Nat.mul_assoc, Nat.mul_div_mul_left _ _ pos, roundHalfEven_mul pos]

/-- A factor of ten can stand in the coefficient or in the exponent. -/
theorem nearestDecimal_mul_ten (coefficient : Nat) (exponent : Int) :
    nearestDecimal ⟨10 * coefficient, exponent⟩ = nearestDecimal ⟨coefficient, exponent + 1⟩ := by
  rcases Nat.eq_zero_or_pos coefficient with rfl | pos
  · rfl
  · have place : (Decimal.mk (10 * coefficient) exponent).place =
        (Decimal.mk coefficient (exponent + 1)).place := by
      simp only [Decimal.place, digitsOf_mul_ten pos, List.length_append, List.length_singleton]
      omega
    rw [nearestDecimal, nearestDecimal, place, if_neg (by omega : 10 * coefficient ≠ 0),
      if_neg (by omega : coefficient ≠ 0)]
    congr 2
    -- A negative exponent stands in the denominator, and -1 turns into 0.
    cases exponent with
    | ofNat e =>
      show nearest (10 * coefficient * 10 ^ e) 1 = nearest (coefficient * 10 ^ (e + 1)) 1
      rw [Nat.pow_succ']
      ac_rfl
    | negSucc k =>
      cases k with
      | zero =>
        show nearest (10 * coefficient) (10 * 1) = nearest (coefficient * 1) 1
        rw [nearest_mul (by decide), Nat.mul_one]
      | succ k =>
        show nearest (10 * coefficient) (10 ^ (k + 2)) = nearest coefficient (10 ^ (k + 1))
        rw [Nat.pow_succ', nearest_mul (by decide)]

theorem nearestDecimal_mul_pow (coefficient : Nat) (exponent : Int) (k : Nat) :
    nearestDecimal ⟨coefficient * 10 ^ k, exponent⟩ =
      nearestDecimal ⟨coefficient, exponent + k⟩ := by
  induction k generalizing exponent with
  | zero => simp
  | succ k ih =>
    rw [Nat.pow_succ', Nat.mul_left_comm, nearestDecimal_mul_ten, ih]
    congr 2
    omega

/-- Taking zeros off the end of the coefficient changes nothing. -/
theorem nearestDecimal_stripZeros (coefficient : Nat) (exponent : Int) :
    nearestDecimal (Decimal.stripZeros coefficient exponent) =
      nearestDecimal ⟨coefficient, exponent⟩ := by
  fun_induction Decimal.stripZeros coefficient exponent with
  | case1 exponent => rfl
  | case2 coefficient exponent _ whole ih =>
    rw [ih, ← nearestDecimal_mul_ten, Nat.mul_div_cancel' (Nat.dvd_of_mod_eq_zero whole)]
  | case3 coefficient exponent _ _ => rfl

/-! ### Finite magnitudes -/

/-- A significand has at most fifty-three bits, and exactly that many where there is a
shift. -/
theorem significand_lt (magnitude : Nat) : significand magnitude < 2 ^ 53 := by
  simp only [significand, shift, Nat.pow_eq]
  omega

theorem le_significand {magnitude : Nat} (shifted : 0 < shift magnitude) :
    2 ^ 52 ≤ significand magnitude := by
  simp only [significand, shift, Nat.pow_eq] at shifted ⊢
  omega

theorem shift_add_significand (magnitude : Nat) :
    shift magnitude * Nat.pow 2 52 + significand magnitude = magnitude := by
  simp only [significand, shift, Nat.pow_eq]
  omega

theorem units_pos {magnitude : Nat} (pos : 0 < magnitude) : 0 < units magnitude := by
  have significand_pos : 0 < significand magnitude := by
    simp only [significand, shift, Nat.pow_eq]
    omega
  exact Nat.mul_pos significand_pos (two_raised_pos (shift magnitude))

theorem units_lt {magnitude k : Nat} (le : shift magnitude ≤ k) :
    units magnitude < 2 ^ 53 * Nat.pow 2 k :=
  Nat.mul_lt_mul_of_lt_of_le (significand_lt magnitude) (Nat.pow_le_pow_right (by decide) le)
    (two_raised_pos k)

/-- The shift is the number of bits that the units have beyond fifty-three. -/
theorem log2_units (magnitude : Nat) : (units magnitude).log2 - 52 = shift magnitude := by
  rcases Nat.eq_zero_or_pos (shift magnitude) with unshifted | shifted
  · have units_eq : units magnitude = significand magnitude := by
      simp [units, unshifted]
    rcases Nat.eq_zero_or_pos (significand magnitude) with zero | pos
    · simp [units_eq, zero, unshifted]
    · have bits := (Nat.log2_lt (Nat.ne_of_gt pos)).mpr (significand_lt magnitude)
      rw [units_eq, unshifted]
      omega
  · have lower := le_significand shifted
    have upper := significand_lt magnitude
    have units_eq : units magnitude = significand magnitude * 2 ^ shift magnitude := rfl
    have units_ne : units magnitude ≠ 0 := by
      rw [units_eq]
      exact Nat.ne_of_gt (Nat.mul_pos (by omega) (two_raised_pos (shift magnitude)))
    have bits : (units magnitude).log2 = 52 + shift magnitude := by
      rw [Nat.log2_eq_iff units_ne, units_eq, Nat.add_right_comm, Nat.pow_add, Nat.pow_add]
      exact ⟨Nat.mul_le_mul_right _ lower,
        Nat.mul_lt_mul_of_pos_right upper (two_raised_pos (shift magnitude))⟩
    omega

/-- Rounding keeps a finite magnitude. -/
theorem nearest_units {magnitude : Nat} (finite : magnitude < infinityMagnitude) :
    nearest (units magnitude) (Nat.pow 2 unitPower) = magnitude := by
  have unit_pos := two_raised_pos unitPower
  rw [nearest]
  generalize Nat.pow 2 unitPower = unit at unit_pos ⊢
  have scaled : units magnitude * unit =
      significand magnitude * (unit * Nat.pow 2 (shift magnitude)) := by
    rw [units]
    ac_rfl
  simp only [Nat.mul_div_cancel _ unit_pos, log2_units]
  rw [scaled, roundHalfEven_mul_self _ (Nat.mul_pos unit_pos (two_raised_pos (shift magnitude))),
    shift_add_significand]
  exact Nat.min_eq_left (Nat.le_of_lt finite)

/-! ### The chosen decimal -/

theorem coefficient_exactDecimal_pos {magnitude : Nat} (pos : 0 < magnitude) :
    0 < (exactDecimal magnitude).coefficient :=
  Nat.mul_pos (units_pos pos) (five_raised_pos unitPower)

theorem exponent_exactDecimal (magnitude : Nat) :
    (exactDecimal magnitude).exponent = .negSucc 1073 := rfl

/-- A decimal between the bounds outside of which its place settles the matter. -/
theorem place_exactDecimal {magnitude : Nat} (pos : 0 < magnitude)
    (finite : magnitude < infinityMagnitude) :
    (exactDecimal magnitude).place ≤ 310 ∧ -330 ≤ (exactDecimal magnitude).place := by
  have coefficient_pos := coefficient_exactDecimal_pos pos
  have shift_le : shift magnitude ≤ 2045 := by
    simp only [shift, infinityMagnitude, Nat.pow_eq] at finite ⊢
    omega
  -- The largest and the least magnitude, against powers of ten.
  have above : (exactDecimal magnitude).coefficient < 10 ^ 1384 :=
    Nat.lt_of_lt_of_le
      (Nat.mul_lt_mul_of_pos_right (units_lt shift_le) (five_raised_pos unitPower))
      (by decide +kernel)
  have below : 10 ^ 744 ≤ (exactDecimal magnitude).coefficient := by
    calc 10 ^ 744
        ≤ 1 * Nat.pow 5 unitPower := by decide +kernel
      _ ≤ units magnitude * Nat.pow 5 unitPower := Nat.mul_le_mul_right _ (units_pos pos)
  have few := Nat.log_lt_of_lt_pow (Nat.ne_of_gt coefficient_pos) above
  have many := Nat.le_log_of_pow_le (by decide : 1 < 10) below
  rw [Decimal.place, length_digitsOf coefficient_pos, exponent_exactDecimal]
  omega

/-- A magnitude that is written out in full reads back. -/
theorem nearestDecimal_exactDecimal {magnitude : Nat} (pos : 0 < magnitude)
    (finite : magnitude < infinityMagnitude) :
    nearestDecimal (exactDecimal magnitude) = magnitude := by
  obtain ⟨low, high⟩ := place_exactDecimal pos finite
  have coefficient_ne := Nat.ne_of_gt (coefficient_exactDecimal_pos pos)
  have tens : Nat.pow 10 (1073 + 1) = Nat.pow 5 unitPower * Nat.pow 2 unitPower := by
    decide +kernel
  rw [nearestDecimal, if_neg coefficient_ne, if_neg (by omega), if_neg (by omega),
    exponent_exactDecimal]
  dsimp only
  rw [tens, exactDecimal, Nat.mul_comm, nearest_mul (five_raised_pos unitPower)]
  exact nearest_units finite

/-- What is taken from a grid reads back. -/
theorem nearestDecimal_onGrid {magnitude numerator denominator : Nat} {exponent : Int}
    {d : Decimal} (found : onGrid magnitude numerator denominator exponent = some d) :
    nearestDecimal d = magnitude := by
  simp only [onGrid] at found
  split at found
  · next lower upper =>
    split at found
    · cases found
      exact of_decide_eq_true lower
    · cases found
      exact of_decide_eq_true upper
  · next lower _ =>
    cases found
    exact of_decide_eq_true lower
  · next _ upper =>
    cases found
    exact of_decide_eq_true upper
  · cases found

/-- The shortest decimal reads back. -/
theorem nearestDecimal_shortest {magnitude : Nat} (pos : 0 < magnitude)
    (finite : magnitude < infinityMagnitude) :
    nearestDecimal (shortest magnitude) = magnitude := by
  simp only [shortest, nearestDecimal_stripZeros]
  cases found : (List.range enoughDigits).findSome? fun n =>
      onGrid magnitude (fraction magnitude).1 (fraction magnitude).2
        (fractionPlace (fraction magnitude).1 (fraction magnitude).2 - (n + 1 : Nat)) with
  | none => exact nearestDecimal_exactDecimal pos finite
  | some d =>
    obtain ⟨n, -, on_grid⟩ := List.exists_of_findSome?_eq_some found
    exact nearestDecimal_onGrid on_grid

end Binary64

end RefinementTables
