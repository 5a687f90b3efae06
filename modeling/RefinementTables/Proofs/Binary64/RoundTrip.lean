import RefinementTables.Row
import RefinementTables.Proofs.Binary64.Nearest
import RefinementTables.Proofs.Text

/-!
Numbers survive being written.

* `readDecimal_of_denotes` — what is laid out as a decimal is read as that decimal.
* `Faithful` — a form of writing decimals that keeps the double which a decimal is
  nearest to; `faithful_positional`, `faithful_tableForm` — both forms that are in use
  are faithful.
* `number?_write` — in a faithful form every number is read back, its sign included,
  also the two zeros and the two infinities.
* `number?_tableText` — so the text of a number in a table has its bits, and no two
  numbers share a text.
-/

namespace RefinementTables

open Decimal (power layout Denotes)

namespace Binary64

/-! ### Reading digits -/

theorem spanDigits_append {digits : List Nat} {rest : List Char}
    (below : ∀ d ∈ digits, d < 10) (stop : ∀ c ∈ rest.head?, c.isDigit = false) :
    spanDigits (digits.map digitChar ++ rest) = (digits, rest) := by
  induction digits with
  | nil =>
    cases rest with
    | nil => rfl
    | cons c cs => simp [spanDigits, stop c rfl]
  | cons d digits ih =>
    have first := isDigit_digitChar d (below d List.mem_cons_self)
    have value := toNat_digitChar d (below d List.mem_cons_self)
    have later := ih fun digit mem => below digit (List.mem_cons_of_mem d mem)
    simp only [spanDigits, Prod.mk.injEq] at later
    simp only [spanDigits, List.map_cons, List.cons_append, List.takeWhile_cons_of_pos first,
      List.dropWhile_cons_of_pos first, value, later]

theorem spanDigits_map {digits : List Nat} (below : ∀ d ∈ digits, d < 10) :
    spanDigits (digits.map digitChar) = (digits, []) := by
  have alone : ∀ c ∈ ([] : List Char).head?, c.isDigit = false := by simp
  rw [← List.append_nil (digits.map digitChar), spanDigits_append below alone]

theorem not_sign_digitChar : ∀ d < 10, digitChar d ≠ '-' ∧ digitChar d ≠ '+' := by decide

theorem toLower_digitChar : ∀ d < 10, (digitChar d).toLower = digitChar d := by decide

theorem not_isBlank_digitChar : ∀ d < 10, Text.isBlank (digitChar d) = false := by decide

/-- The first digit of a numeral, and what follows it. -/
theorem numeral_eq_cons (n : Nat) : ∃ d cs, d < 10 ∧ numeral n = digitChar d :: cs := by
  obtain ⟨d, rest, digits⟩ := List.exists_cons_of_ne_nil (digitsOf_ne_nil n)
  have mem : d ∈ digitsOf n := by
    rw [digits]
    exact List.mem_cons_self
  exact ⟨d, rest.map digitChar, digitsOf_lt mem, by rw [numeral, digits, List.map_cons]⟩

theorem spanSign_minus (cs : List Char) : spanSign ('-' :: cs) = (true, cs) := rfl

theorem spanSign_unsigned {c : Char} {cs : List Char} (minus : c ≠ '-') (plus : c ≠ '+') :
    spanSign (c :: cs) = (false, c :: cs) := by
  unfold spanSign
  split <;> simp_all

theorem spanSign_numeral (n : Nat) : spanSign (numeral n) = (false, numeral n) := by
  obtain ⟨d, cs, below, digits⟩ := numeral_eq_cons n
  obtain ⟨minus, plus⟩ := not_sign_digitChar d below
  rw [digits, spanSign_unsigned minus plus]

theorem spanDigits_numeral (n : Nat) : spanDigits (numeral n) = (digitsOf n, []) :=
  spanDigits_map fun _ => digitsOf_lt

/-! ### Reading a decimal -/

theorem readExponent_power (e : Int) : readExponent ('e' :: power e) = some e := by
  have signed : spanSign (power e) = (decide (e < 0), numeral e.natAbs) := by
    rw [power]
    split
    · next negative => simp [spanSign_minus, negative]
    · next positive => simp [spanSign_numeral, positive]
  obtain ⟨d, rest, digits⟩ := List.exists_cons_of_ne_nil (digitsOf_ne_nil e.natAbs)
  have value : ofDigits (d :: rest) = e.natAbs := by rw [← digits, ofDigits_digitsOf]
  have signedValue : (if decide (e < 0) then -(e.natAbs : Int) else e.natAbs) = e := by
    simp only [decide_eq_true_eq]
    split <;> omega
  simp only [readExponent, signed, spanDigits_numeral, digits, value, signedValue]
  rfl

theorem readExponent_elim (exponent : Option Int) :
    readExponent (exponent.elim [] fun e => 'e' :: power e) = some (exponent.getD 0) := by
  cases exponent with
  | none => rfl
  | some e => exact readExponent_power e

/-- The exponent of a laid out decimal does not run into the digits before it. -/
theorem head?_elim (exponent : Option Int) :
    ∀ c ∈ (exponent.elim [] fun e => 'e' :: power e).head?, c = 'e' := by
  cases exponent <;> simp

theorem spanFraction_append {fraction : List Nat} {rest : List Char}
    (below : ∀ d ∈ fraction, d < 10) (stop : ∀ c ∈ rest.head?, c = 'e') :
    spanFraction ((if fraction = [] then [] else '.' :: fraction.map digitChar) ++ rest) =
      (fraction, rest) := by
  split
  · next none =>
    subst none
    cases rest with
    | nil => rfl
    | cons c cs =>
      rw [stop c rfl]
      rfl
  · refine spanDigits_append below fun c mem => ?_
    rw [stop c mem]
    decide

/-- What is laid out as a decimal is read as that decimal. -/
theorem readDecimal_of_denotes {text : List Char} {d : Decimal} (denotes : Denotes text d) :
    readDecimal text = some d := by
  obtain ⟨whole, fraction, exponent, rfl, some_digit, below, rfl⟩ := denotes
  -- Whatever comes behind the digits before the point, it is no digit.
  have point : ∀ c ∈ ((if fraction = [] then [] else '.' :: fraction.map digitChar) ++
      exponent.elim [] fun e => 'e' :: power e).head?, c.isDigit = false := by
    split
    · intro c mem
      rw [head?_elim exponent c mem]
      decide
    · simp
  have before := spanDigits_append (fun d mem => below d (List.mem_append_left _ mem)) point
  have behind := spanFraction_append (fun d mem => below d (List.mem_append_right whole mem))
    (head?_elim exponent)
  rw [readDecimal, layout, List.append_assoc, before]
  simp only [behind, List.isEmpty_eq_false_iff.mpr some_digit, Bool.false_and,
    Bool.false_eq_true, if_false, readExponent_elim, Option.map_some]

/-! ### Reading a number -/

/-- A laid out decimal begins with a digit. -/
theorem eq_cons_of_denotes {text : List Char} {d : Decimal} (denotes : Denotes text d) :
    ∃ digit cs, digit < 10 ∧ text = digitChar digit :: cs := by
  obtain ⟨whole, fraction, exponent, rfl, some_digit, below, -⟩ := denotes
  obtain ⟨digit, rest, rfl⟩ := List.exists_cons_of_ne_nil some_digit
  exact ⟨digit, _, below digit List.mem_cons_self, rfl⟩

theorem spanSign_signText (x : Binary64) {c : Char} (cs : List Char) (minus : c ≠ '-')
    (plus : c ≠ '+') : spanSign (x.signText ++ c :: cs) = (x.negative, c :: cs) := by
  rw [signText]
  split
  · next negative => rw [List.singleton_append, spanSign_minus, negative]
  · next positive =>
    rw [List.nil_append, spanSign_unsigned minus plus, Bool.eq_false_of_not_eq_true positive]

/-- What begins with a digit is none of the words that stand for a number. -/
theorem lowered_ne {digit : Nat} (below : digit < 10) (cs : List Char) (word : String)
    (letter : word.toList.head?.any Char.isDigit = false) :
    String.ofList ((digitChar digit :: cs).map Char.toLower) ≠ word := by
  rintro rfl
  rw [String.toList_ofList, List.map_cons, toLower_digitChar digit below, List.head?_cons,
    Option.any_some, isDigit_digitChar digit below] at letter
  cases letter

theorem read_signed (x : Binary64) {text : List Char} {d : Decimal} (denotes : Denotes text d) :
    read (String.ofList (x.signText ++ text)) = some (ofDecimal x.negative d) := by
  obtain ⟨digit, cs, below, begins⟩ := eq_cons_of_denotes denotes
  obtain ⟨minus, plus⟩ := not_sign_digitChar digit below
  have number := readDecimal_of_denotes denotes
  have not_inf := lowered_ne below cs "inf" (by decide)
  have not_infinity := lowered_ne below cs "infinity" (by decide)
  have not_nan := lowered_ne below cs "nan" (by decide)
  rw [begins] at number ⊢
  rw [read, String.toList_ofList, spanSign_signText x cs minus plus]
  dsimp only
  generalize String.ofList ((digitChar digit :: cs).map Char.toLower) = word
    at not_inf not_infinity not_nan ⊢
  simp [not_inf, not_infinity, not_nan, number]

theorem read_inf (x : Binary64) :
    read (String.ofList (x.signText ++ ['i', 'n', 'f'])) = some (infinity x.negative) := by
  have unsigned : 'i' ≠ '-' ∧ 'i' ≠ '+' := by decide
  rw [read, String.toList_ofList, spanSign_signText x ['n', 'f'] unsigned.1 unsigned.2]
  rfl

/-! ### Forms -/

/-- A form that keeps the double which a decimal is nearest to. -/
def Faithful (form : Decimal → List Char) : Prop :=
  ∀ d, ∃ kept, Denotes (form d) kept ∧ nearestDecimal kept = nearestDecimal d

theorem faithful_positional : Faithful Decimal.positional := by
  intro d
  -- The zeros that went into the coefficient come back out of the exponent.
  refine ⟨_, Decimal.denotes_positional d, ?_⟩
  rw [nearestDecimal_mul_pow]
  congr 1
  obtain ⟨coefficient, exponent⟩ := d
  simp only [Decimal.mk.injEq, true_and]
  omega

theorem faithful_scientific : Faithful Decimal.scientific :=
  fun d => ⟨d, Decimal.denotes_scientific d, rfl⟩

/-- Wherever the change from one notation to the other is. -/
theorem faithful_tableForm : Faithful tableForm := by
  intro d
  unfold tableForm
  split
  · exact faithful_positional d
  · exact faithful_scientific d

/-! ### White space -/

theorem solid_map_digitChar {digits : List Nat} (below : ∀ d ∈ digits, d < 10) :
    Text.Solid (digits.map digitChar) := by
  intro c mem
  obtain ⟨d, mem_digits, rfl⟩ := List.mem_map.mp mem
  exact not_isBlank_digitChar d (below d mem_digits)

theorem solid_minus : Text.Solid ['-'] :=
  .cons (by decide) Text.solid_nil

theorem solid_signText (x : Binary64) : Text.Solid x.signText := by
  unfold signText
  split
  · exact solid_minus
  · exact Text.solid_nil

theorem solid_power (e : Int) : Text.Solid (power e) := by
  refine .append ?_ (solid_map_digitChar fun _ => digitsOf_lt)
  split
  · exact solid_minus
  · exact Text.solid_nil

/-- A laid out decimal is made of digits, a point, a minus sign and the letter before the
exponent. -/
theorem solid_of_denotes {text : List Char} {d : Decimal} (denotes : Denotes text d) :
    Text.Solid text := by
  obtain ⟨whole, fraction, exponent, rfl, -, below, -⟩ := denotes
  have before := solid_map_digitChar fun d mem => below d (List.mem_append_left fraction mem)
  have behind := solid_map_digitChar fun d mem => below d (List.mem_append_right whole mem)
  refine (before.append ?_).append ?_
  · split
    · exact Text.solid_nil
    · exact behind.cons (by decide)
  · cases exponent with
    | none => exact Text.solid_nil
    | some e => exact (solid_power e).cons (by decide)

/-! ### Reading back -/

theorem ofDecimal_eq {x : Binary64} {d : Decimal} (nearest : nearestDecimal d = x.magnitude) :
    ofDecimal x.negative d = x := by
  obtain ⟨negative, magnitude, lt⟩ := x
  simpa [ofDecimal] using nearest

theorem number?_signed {x : Binary64} {text : List Char} {d : Decimal} (denotes : Denotes text d)
    (nearest : nearestDecimal d = x.magnitude) :
    (Cell.text (String.ofList (x.signText ++ text))).number? = some x := by
  have solid := (solid_signText x).append (solid_of_denotes denotes)
  rw [Cell.number?, solid.trim_eq, read_signed x denotes, ofDecimal_eq nearest]

theorem number?_inf {x : Binary64} (infinite : x.magnitude = infinityMagnitude) :
    (Cell.text (String.ofList (x.signText ++ ['i', 'n', 'f']))).number? = some x := by
  have word : Text.Solid ['i', 'n', 'f'] :=
    .cons (by decide) (.cons (by decide) (.cons (by decide) Text.solid_nil))
  have solid := (solid_signText x).append word
  rw [Cell.number?, solid.trim_eq, read_inf]
  obtain ⟨negative, magnitude, lt⟩ := x
  simpa [infinity] using infinite.symm

/-- In a faithful form every number is read back. -/
theorem number?_write {form : Decimal → List Char} (faithful : Faithful form) {x : Binary64}
    (number : x.isNaN = false) :
    (Cell.text (String.ofList (x.write form))).number? = some x := by
  have at_most : x.magnitude ≤ infinityMagnitude := by
    simpa [isNaN] using number
  rw [write, number, if_neg Bool.false_ne_true]
  by_cases finite : x.magnitude < infinityMagnitude
  · have is_finite : x.isFinite = true := decide_eq_true finite
    rw [is_finite, Bool.not_true, if_neg Bool.false_ne_true]
    split
    · next zero =>
      have denotes : Denotes ['0'] ⟨0, 0⟩ := ⟨[0], [], none, rfl, by simp, by simp, rfl⟩
      exact number?_signed denotes zero.symm
    · next nonzero =>
      obtain ⟨d, denotes, nearest⟩ := faithful (shortest x.magnitude)
      have pos : 0 < x.magnitude := Nat.pos_of_ne_zero nonzero
      exact number?_signed denotes (nearest.trans (nearestDecimal_shortest pos finite))
  · have infinite : x.magnitude = infinityMagnitude := by omega
    have not_finite : x.isFinite = false := decide_eq_false finite
    rw [not_finite, Bool.not_false, if_pos rfl, number?_inf infinite]

/-- A sign and sixty-three bits are all that a number is made of. -/
theorem toBits_ofBits (bits : UInt64) : (ofBits bits).toBits = bits := by
  have parts : (if decide (Nat.pow 2 63 ≤ bits.toNat) = true then Nat.pow 2 63 else 0) +
      bits.toNat % Nat.pow 2 63 = bits.toNat := by
    have below := bits.toNat_lt
    simp only [decide_eq_true_eq, Nat.pow_eq]
    split <;> omega
  rw [toBits, ofBits, parts, UInt64.ofNat_toNat]

/-- The text of a number in a table is read back as the same sixty-four bits; so
different numbers have different texts. -/
theorem number?_tableText (bits : UInt64) (number : (ofBits bits).isNaN = false) :
    ((Cell.text (ofBits bits).tableText).number?).map toBits = some bits ∧
      ∀ other, (ofBits other).isNaN = false → other ≠ bits →
        (ofBits other).tableText ≠ (ofBits bits).tableText := by
  have reads : ∀ bits, (ofBits bits).isNaN = false →
      ((Cell.text (ofBits bits).tableText).number?).map toBits = some bits := by
    intro bits number
    rw [tableText, number?_write faithful_tableForm number, Option.map_some, toBits_ofBits]
  refine ⟨reads bits number, fun other other_number different same => different ?_⟩
  have read_other := reads other other_number
  rw [same, reads bits number] at read_other
  exact (Option.some.inj read_other).symm

/-- The least positive number, for which one digit is enough. -/
theorem number?_tableText_least :
    (ofBits 1).tableText = "5e-324" ∧
      ((Cell.text "5e-324").number?).map toBits = some 1 ∧
      ∀ other, (ofBits other).isNaN = false → other ≠ 1 → (ofBits other).tableText ≠ "5e-324" := by
  have text : (ofBits 1).tableText = "5e-324" := by decide +kernel
  have kept := number?_tableText 1 (by decide)
  rw [text] at kept
  exact ⟨text, kept⟩

end Binary64

end RefinementTables
