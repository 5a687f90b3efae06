/-!
Double-precision numbers.

A number is held as its sign and its magnitude, the sixty-three bits below the
sign. Magnitudes are ordered as the absolute values they stand for: first the
finite ones from zero up, then infinity, then the values that are no number. The
finite magnitude with shift `t` and significand `m` stands for
`m * 2 ^ t / 2 ^ 1074`, so every finite magnitude is a whole count of the least
positive number.
-/

namespace RefinementTables

/-- A double-precision number. -/
structure Binary64 where
  negative : Bool
  magnitude : Nat
  magnitude_lt : magnitude < Nat.pow 2 63
deriving DecidableEq, Repr

namespace Binary64

/-- The magnitude of infinity. -/
def infinityMagnitude : Nat := 2047 * Nat.pow 2 52

/-- The least power of two of which `1 / 2 ^ p` is the least positive number. -/
def unitPower : Nat := 1074

/-! ### Bits -/

/-- The number with the given sixty-four bits. -/
def ofBits (bits : UInt64) : Binary64 where
  negative := Nat.pow 2 63 ≤ bits.toNat
  magnitude := bits.toNat % Nat.pow 2 63
  magnitude_lt := Nat.mod_lt _ (by decide)

/-- The sixty-four bits of a number. -/
def toBits (x : Binary64) : UInt64 :=
  UInt64.ofNat ((if x.negative then Nat.pow 2 63 else 0) + x.magnitude)

theorem ofBits_toBits (x : Binary64) : ofBits x.toBits = x := by
  obtain ⟨negative, magnitude, lt⟩ := x
  have bound : magnitude < 9223372036854775808 := lt
  cases negative <;> simp only [ofBits, toBits, mk.injEq] <;> constructor <;>
    simp [UInt64.toNat_ofNat'] <;> omega

/-! ### Classes -/

def isNaN (x : Binary64) : Bool := infinityMagnitude < x.magnitude

def isFinite (x : Binary64) : Bool := x.magnitude < infinityMagnitude

/-- Finite and above zero: what a measurement has to be. -/
def isMeasure (x : Binary64) : Bool :=
  !x.negative && 0 < x.magnitude && x.isFinite

/-! ### Order -/

/-- The place of a number among all numbers, from the least one up. Those that are
no number come at both ends, and the negative zero just below the positive one;
the others are ordered as their values. -/
def rank (x : Binary64) : Int :=
  if x.negative then -1 - x.magnitude else x.magnitude

/-- The least of all ranks. -/
def leastRank : Int := -(Nat.pow 2 63)

/-- The greatest of all ranks. -/
def greatestRank : Int := Nat.pow 2 63 - 1

/-! ### The value of a finite number -/

/-- The power of two by which the significand is shifted. -/
def shift (magnitude : Nat) : Nat := magnitude / Nat.pow 2 52 - 1

/-- The significand, with the leading bit that is not stored. -/
def significand (magnitude : Nat) : Nat := magnitude - shift magnitude * Nat.pow 2 52

/-- A finite magnitude as a count of the least positive number. -/
def units (magnitude : Nat) : Nat := significand magnitude * Nat.pow 2 (shift magnitude)

/-! ### Arithmetic -/

def one : Binary64 where
  negative := false
  magnitude := 1023 * Nat.pow 2 52
  magnitude_lt := by decide

def toFloat (x : Binary64) : Float := Float.ofBits x.toBits

def ofFloat (x : Float) : Binary64 := ofBits x.toBits

/-- The correctly rounded quotient. -/
def div (x y : Binary64) : Binary64 := ofFloat (x.toFloat / y.toFloat)

/-- The correctly rounded product. -/
def mul (x y : Binary64) : Binary64 := ofFloat (x.toFloat * y.toFloat)

/-- The natural logarithm. -/
def log (x : Binary64) : Binary64 := ofFloat x.toFloat.log

end Binary64

end RefinementTables
