import RefinementTables.Text.Bytes

/-!
Splitting bytes into records of fields.

The scanner is a machine with five modes that reads one byte at a time. A record
ends at a line feed or a carriage return, and a field at the delimiter. A quote
opens a quoted field only as its first byte; inside, a doubled quote stands for
one, and after the closing quote what follows up to the delimiter is kept as it
is. Breaks between records are skipped, so blank lines are no records, and a
quote that is never closed runs to the end.

Each record carries the place where its reading began: the end of the record
before it, counted in line feeds and in bytes.
-/

namespace RefinementTables.Delimited

/-- The quote. -/
def quote : UInt8 := 34

def lineFeed : UInt8 := 10

def carriageReturn : UInt8 := 13

/-- Whether a byte ends a record. -/
def isBreak (b : UInt8) : Bool := b == lineFeed || b == carriageReturn

/-- A place in a file: its line, counted from one, and its byte, from zero. -/
structure Cursor where
  line : Nat
  offset : Nat
deriving DecidableEq, Repr

def Cursor.start : Cursor := ⟨1, 0⟩

/-- The place after a byte. -/
def Cursor.after (c : Cursor) (b : UInt8) : Cursor :=
  ⟨if b = lineFeed then c.line + 1 else c.line, c.offset + 1⟩

/-- A record as it stands in a file. -/
structure Piece where
  fields : List Bytes
  start : Cursor
deriving DecidableEq, Repr

/-! ### The machine -/

/-- What the scanner is inside of. `closed` is the mode after a quote in a quoted
field, which may be the first of two. -/
inductive Mode where
  | recordStart
  | fieldStart
  | bare
  | quoted
  | closed
deriving DecidableEq, Repr

/-- What happens to a byte. -/
inductive Action where
  | drop
  | keep
  | endField
  | endRecord
deriving DecidableEq, Repr

/-- The move for a byte outside of quotes. -/
def Mode.outside (delimiter b : UInt8) : Mode × Action :=
  if b = delimiter then (.fieldStart, .endField)
  else if isBreak b then (.recordStart, .endRecord)
  else (.bare, .keep)

/-- The move for a byte. -/
def Mode.move (delimiter : UInt8) : Mode → UInt8 → Mode × Action
  | recordStart, b =>
    if isBreak b then (recordStart, .drop)
    else if b = quote then (quoted, .drop)
    else outside delimiter b
  | fieldStart, b => if b = quote then (quoted, .drop) else outside delimiter b
  | bare, b => outside delimiter b
  | quoted, b => if b = quote then (closed, .drop) else (quoted, .keep)
  | closed, b => if b = quote then (quoted, .keep) else outside delimiter b

/-- The scanner between two bytes. The field and the fields of the record at
hand are kept last first. -/
structure State where
  mode : Mode
  field : Bytes
  fields : List Bytes
  start : Cursor
  here : Cursor
deriving DecidableEq, Repr

namespace State

/-- The scanner at the start of a record. -/
def between (here : Cursor) : State := ⟨.recordStart, [], [], here, here⟩

/-- The record at hand, with the field at hand as its last. -/
def piece (s : State) : Piece := ⟨(s.field.reverse :: s.fields).reverse, s.start⟩

/-- One byte further, with the record that the byte ends. -/
def step (delimiter : UInt8) (s : State) (b : UInt8) : State × Option Piece :=
  let here := s.here.after b
  match s.mode.move delimiter b with
  | (mode, .drop) => ({ s with mode, here }, none)
  | (mode, .keep) => ({ s with mode, here, field := b :: s.field }, none)
  | (mode, .endField) =>
    ({ s with mode, here, field := [], fields := s.field.reverse :: s.fields }, none)
  | (_, .endRecord) => (between here, some s.piece)

/-- The record that the end of the file ends. -/
def finish (s : State) : Option Piece :=
  if s.mode = .recordStart then none else some s.piece

/-- The records from a state on. -/
def run (delimiter : UInt8) (s : State) : Bytes → List Piece
  | [] => s.finish.toList
  | b :: bs =>
    match s.step delimiter b with
    | (next, none) => run delimiter next bs
    | (next, some piece) => piece :: run delimiter next bs

end State

/-! ### Whole files -/

/-- The byte order mark that may open a text. -/
def byteOrderMark : Bytes := [0xEF, 0xBB, 0xBF]

/-- The records of a file, in order. A byte order mark at its start is read with
the first record and kept in no field. -/
def pieces (delimiter : UInt8) (bytes : Bytes) : List Piece :=
  if byteOrderMark.isPrefixOf bytes then
    let passed := { State.between .start with here := ⟨1, byteOrderMark.length⟩ }
    passed.run delimiter (bytes.drop byteOrderMark.length)
  else (State.between .start).run delimiter bytes

end RefinementTables.Delimited
