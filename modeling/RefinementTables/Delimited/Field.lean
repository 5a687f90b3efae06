import RefinementTables.Delimited.Scan
import RefinementTables.Fault

/-!
The texts of a record's fields.

A field has to be UTF-8; one that is not spoils its own record and no other. The
white space at the ends of a field, quoted or not, does not belong to it. Where
a field is not UTF-8, the length of its valid prefix is counted after the white
space of ASCII at its ends is taken off. All of this holds of the first record of
a file as of any other.
-/

namespace RefinementTables.Delimited

/-- The white space of ASCII, without the vertical tab. -/
def isAsciiBlank (b : UInt8) : Bool :=
  b == 9 || b == 10 || b == 12 || b == 13 || b == 32

/-- The texts of fields, or the index and the valid prefix of the first one that
is not text. -/
def fieldTexts : List Bytes → Except (Nat × Nat) (List String)
  | [] => .ok []
  | field :: fields =>
    match Text.ofBytes? field with
    | none => .error (0, Text.validPrefix (Text.trimWhile isAsciiBlank field))
    | some text =>
      match fieldTexts fields with
      | .ok texts => .ok (Text.trim text :: texts)
      | .error (index, validUpTo) => .error (index + 1, validUpTo)

/-- A record with its fields as texts and the line on which its reading began. -/
structure Entry where
  fields : List String
  line : Nat
deriving DecidableEq, Repr

/-- The entry of a piece that is preceded by `index` others. -/
def Piece.entry (index : Nat) (p : Piece) : Except DelimitedFault Entry :=
  match fieldTexts p.fields with
  | .ok texts => .ok ⟨texts, p.start.line⟩
  | .error (field, validUpTo) =>
    .error (.notText index p.start.line field p.start.offset validUpTo)

/-- The entries of a file, in order. -/
def entries (delimiter : UInt8) (bytes : Bytes) : List (Except DelimitedFault Entry) :=
  (pieces delimiter bytes).zipIdx.map fun (p, index) => p.entry index

end RefinementTables.Delimited
