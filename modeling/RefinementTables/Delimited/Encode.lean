import RefinementTables.Delimited.Scan

/-!
Writing records of fields as bytes.

A field is quoted when it holds the delimiter, a quote or a break, with its
quotes doubled. A record without a single byte of its own is written as a quoted
empty field, for otherwise it would be a blank line and no record.
-/

namespace RefinementTables.Delimited

/-- Whether a byte can stand only in a quoted field. -/
def needsQuotes (delimiter b : UInt8) : Bool :=
  b == delimiter || b == quote || isBreak b

/-- Bytes with every quote doubled. -/
def doubleQuotes : Bytes → Bytes
  | [] => []
  | b :: bs => if b = quote then quote :: quote :: doubleQuotes bs else b :: doubleQuotes bs

def encodeField (delimiter : UInt8) (field : Bytes) : Bytes :=
  if field.any (needsQuotes delimiter) then quote :: doubleQuotes field ++ [quote] else field

/-- Fields with the delimiter between neighbours. -/
def joinFields (delimiter : UInt8) : List Bytes → Bytes
  | [] => []
  | [field] => encodeField delimiter field
  | field :: fields => encodeField delimiter field ++ delimiter :: joinFields delimiter fields

/-- A record as a line. -/
def encodeRecord (delimiter : UInt8) (fields : List Bytes) : Bytes :=
  let line := joinFields delimiter fields
  (if line.isEmpty then [quote, quote] else line) ++ [lineFeed]

end RefinementTables.Delimited
