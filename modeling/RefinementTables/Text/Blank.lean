import RefinementTables.Text.Split

/-!
White space, in the sense of the Unicode property `White_Space`, and the two
things done with it: taking it off the ends of a text, and folding a text of
several lines onto one.

The property is a table of ten ranges. It is larger than the white space of
ASCII and holds neither the zero-width space nor the byte order mark.
-/

namespace RefinementTables.Text

/-- The ranges of the Unicode property `White_Space`, first and last included. -/
def blankRanges : List (Nat × Nat) :=
  [(0x09, 0x0D), (0x20, 0x20), (0x85, 0x85), (0xA0, 0xA0), (0x1680, 0x1680),
   (0x2000, 0x200A), (0x2028, 0x2029), (0x202F, 0x202F), (0x205F, 0x205F),
   (0x3000, 0x3000)]

/-- Whether a character is white space. -/
def isBlank (c : Char) : Bool :=
  blankRanges.any fun (first, last) => first ≤ c.toNat && c.toNat ≤ last

/-! ### Trimming -/

/-- A list without the longest run at its end that satisfies `p`. -/
def dropEndWhile {α : Type} (p : α → Bool) (xs : List α) : List α :=
  (xs.reverse.dropWhile p).reverse

/-- A list without the runs at both ends that satisfy `p`. -/
def trimWhile {α : Type} (p : α → Bool) (xs : List α) : List α :=
  dropEndWhile p (xs.dropWhile p)

/-- A text without the white space at its ends. -/
def trim (s : String) : String :=
  String.ofList (trimWhile isBlank s.toList)

/-! ### Folding onto one line -/

/-- One line of text: every line is trimmed, blank lines are dropped, and the
rest are joined by single spaces. A carriage return before a line feed goes
with the trimming, for it is white space. -/
def oneLine (s : String) : String :=
  String.ofList (join ' '
    (((split '\n' s.toList).map (trimWhile isBlank)).filter fun l => !l.isEmpty))

end RefinementTables.Text
