import RefinementTables.Binary64.Shortest
import RefinementTables.Text.Blank

/-!
Doubles as text.

Two forms are written. The plain one is positional at every size. The one that
tables use turns to an exponent where the leading digit stands below the fifth
place after the point or above the sixteenth before it. Both give the shortest
digits that read back. A third form, for fitted orders, has a set number of
places.

What is read is an optional sign and then `inf`, `infinity` or `nan` in any
case, or digits with an optional point and an optional exponent.
-/

namespace RefinementTables.Binary64

/-! ### Writing -/

def signText (x : Binary64) : List Char :=
  if x.negative then ['-'] else []

/-- A number, given the form in which its shortest decimal is written. -/
def write (form : Decimal → List Char) (x : Binary64) : List Char :=
  if x.isNaN then ['N', 'a', 'N']
  else if !x.isFinite then x.signText ++ ['i', 'n', 'f']
  else if x.magnitude = 0 then x.signText ++ ['0']
  else x.signText ++ form (shortest x.magnitude)

/-- Positional at every size. -/
def plainText (x : Binary64) : String :=
  String.ofList (x.write Decimal.positional)

/-- Positional from `1e-5` up to but not including `1e16`, with an exponent
elsewhere. -/
def tableForm (d : Decimal) : List Char :=
  if -5 < d.place && d.place ≤ 16 then d.positional else d.scientific

/-- A number as it stands in a table. -/
def tableText (x : Binary64) : String :=
  String.ofList (x.write tableForm)

/-- A number with a set number of places, a half going to the even digit. -/
def fixedText (places : Nat) (x : Binary64) : String :=
  String.ofList
    (if x.isNaN then ['N', 'a', 'N']
     else if !x.isFinite then x.signText ++ ['i', 'n', 'f']
     else
      let count := roundHalfEven (units x.magnitude * Nat.pow 10 places) (Nat.pow 2 unitPower)
      x.signText ++ Decimal.withPlaces count places)

/-! ### Reading -/

/-- The digits at the front of a text, and what follows them. -/
def spanDigits (cs : List Char) : List Nat × List Char :=
  ((cs.takeWhile Char.isDigit).map fun c => c.toNat - '0'.toNat, cs.dropWhile Char.isDigit)

/-- A sign at the front of a text: whether it is a minus, and what follows. -/
def spanSign : List Char → Bool × List Char
  | '-' :: cs => (true, cs)
  | '+' :: cs => (false, cs)
  | cs => (false, cs)

/-- The exponent at the end of a text: nothing, or `e` and a whole number. -/
def readExponent : List Char → Option Int
  | [] => some 0
  | c :: cs =>
    if c = 'e' || c = 'E' then
      let (negative, rest) := spanSign cs
      match spanDigits rest with
      | ([], _) => none
      | (_, _ :: _) => none
      | (ds, []) => some (if negative then -(ofDigits ds : Int) else ofDigits ds)
    else none

/-- The digits after a point, if a point comes next, and what follows them. -/
def spanFraction : List Char → List Nat × List Char
  | '.' :: cs => spanDigits cs
  | cs => ([], cs)

/-- An unsigned decimal: digits, perhaps with a point among them, and perhaps an
exponent. -/
def readDecimal (cs : List Char) : Option Decimal :=
  let (whole, afterWhole) := spanDigits cs
  let (fraction, afterFraction) := spanFraction afterWhole
  if whole.isEmpty && fraction.isEmpty then none
  else (readExponent afterFraction).map fun e =>
    ⟨ofDigits (whole ++ fraction), e - fraction.length⟩

/-- The number that a text is, if it is one. -/
def read (text : String) : Option Binary64 :=
  let (negative, cs) := spanSign text.toList
  let word := String.ofList (cs.map Char.toLower)
  if word = "inf" || word = "infinity" then some (infinity negative)
  else if word = "nan" then some (notANumber negative)
  else (readDecimal cs).map (ofDecimal negative)

end RefinementTables.Binary64
