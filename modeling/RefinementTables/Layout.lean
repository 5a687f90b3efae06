import RefinementTables.Delimited.Encode
import RefinementTables.Row

/-!
Writing a table: a header line, then the rows with their cells in column order.

Writing stops at the first item that is a fault or lacks a column, and what has
been written up to there is whole lines.
-/

namespace RefinementTables

/-- How a table is written. -/
structure Layout where
  columns : List String
  delimiter : UInt8
  sentinel : Sentinel
deriving DecidableEq, Repr

/-- What was written, how many rows of it, and the fault that ended the writing,
if one did. -/
structure Written where
  bytes : Bytes
  rows : Nat
  fault : Option Fault

/-- The number of rows, or the fault. -/
def Written.result (w : Written) : Except Fault Nat :=
  match w.fault with
  | none => .ok w.rows
  | some fault => .error fault

namespace Layout

/-- A record of texts as a line. -/
def line (l : Layout) (texts : List String) : Bytes :=
  Delimited.encodeRecord l.delimiter (texts.map Text.toBytes)

def header (l : Layout) : Bytes := l.line l.columns

/-- An output row in words, for messages about a missing column. -/
def describe (index : Nat) (r : Row) : String :=
  match r.origin with
  | some origin => s!"output row {index} (from {origin.text})"
  | none => s!"output row {index}"

/-- The texts of a row's cells in the order of some columns. -/
def texts (l : Layout) (index : Nat) (r : Row) : List String → Except Fault (List String)
  | [] => .ok []
  | column :: columns =>
    match r.get? column with
    | none => .error (.incompleteRecord column (describe index r))
    | some cell => (l.texts index r columns).map (cell.render l.sentinel :: ·)

/-- The lines of a stream, of which `index - 1` rows have been written before. -/
def lines (l : Layout) (index : Nat) : RowStream → Written
  | [] => ⟨[], index - 1, none⟩
  | .error fault :: _ => ⟨[], index - 1, some fault⟩
  | .ok row :: rest =>
    match l.texts index row l.columns with
    | .error fault => ⟨[], index - 1, some fault⟩
    | .ok texts =>
      let later := l.lines (index + 1) rest
      { later with bytes := l.line texts ++ later.bytes }

/-- A whole table. -/
def write (l : Layout) (rows : RowStream) : Written :=
  let body := l.lines 1 rows
  { body with bytes := l.header ++ body.bytes }

end Layout

end RefinementTables
