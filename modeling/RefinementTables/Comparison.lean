import RefinementTables.Event
import RefinementTables.Row

/-!
Comparing schemes: several tables with one refinement axis, side by side.

The compared table has the axis of the first scheme and then, for each quantity,
one column for each scheme. The schemes are read in lockstep, level by level;
the rows that longer ones have beyond the shortest are read to the end, so that
a fault there still counts, and are left out with a warning.
-/

namespace RefinementTables

/-- One numerical method: its title and its rows in refinement order. -/
structure Scheme where
  title : String
  rows : RowStream

/-- A stream that is being read: what is left of it, how many rows it has given, and
whether its end has been met. -/
structure Reading where
  left : RowStream
  count : Nat
  ended : Bool

namespace Reading

def start (rows : RowStream) : Reading := ⟨rows, 0, false⟩

/-- The next row, if one is left. -/
def next (r : Reading) : Except Fault (Option Row × Reading) :=
  match r.left with
  | [] => .ok (none, { r with ended := true })
  | .error fault :: _ => .error fault
  | .ok row :: left => .ok (some row, { r with left, count := r.count + 1 })

/-- Counts rows to the end of a stream, on top of a number. -/
def countRows (count : Nat) : RowStream → Except Fault Nat
  | [] => .ok count
  | .error fault :: _ => .error fault
  | .ok _ :: left => countRows (count + 1) left

/-- The number of rows of a stream. What is left is read if its end has not been
met. -/
def drain (r : Reading) : Except Fault Nat :=
  if r.ended then .ok r.count else countRows r.count r.left

end Reading

/-- What is compared: the axis and the quantities. -/
structure Comparison where
  axis : String
  quantities : List String
deriving DecidableEq, Repr

/-- Schemes of unequal length were cut to their common levels. -/
structure Truncation where
  common : Nat
  lengths : List (String × Nat)
deriving DecidableEq, Repr

namespace Truncation

/-- The schemes that lost rows. -/
def truncated (t : Truncation) : List String :=
  (t.lengths.filter fun (_, length) => t.common < length).map Prod.fst

def text (t : Truncation) : String :=
  let lengths := ", ".intercalate (t.lengths.map fun (title, length) => s!"{title}={length}")
  let truncated := ", ".intercalate t.truncated
  s!"scheme lengths differ ({lengths}); " ++
    s!"merged the first {t.common} rows, truncating {truncated}"

end Truncation

/-- A compared table. -/
structure ComparedTable where
  columns : List String
  rows : List Row
  truncation : Option Truncation
deriving DecidableEq, Repr

/-- The column of a quantity in a scheme. -/
def schemeColumn (quantity title : String) : String := s!"{quantity}_{title}"

/-- The first element that has occurred before, in the list or in `seen`. -/
def firstRepeated {α : Type} [DecidableEq α] (seen : List α) : List α → Option α
  | [] => none
  | x :: xs => if x ∈ seen then some x else firstRepeated (x :: seen) xs

namespace Comparison

/-! ### Columns -/

/-- The pairs of a quantity and a title in column order. -/
def pairs (c : Comparison) (titles : List String) : List (String × String) :=
  c.quantities.flatMap fun quantity => titles.map fun title => (quantity, title)

/-- Adds the columns of pairs to columns, unless two would have one name. -/
def addColumns (columns : List String) : List (String × String) → Except Fault (List String)
  | [] => .ok columns
  | (quantity, title) :: rest =>
    let column := schemeColumn quantity title
    if column ∈ columns then
      .error (.duplicateColumn column (.quantityOfScheme quantity title))
    else addColumns (columns ++ [column]) rest

/-- The columns of the compared table: the axis, then each quantity of each
scheme. -/
def columns (c : Comparison) (titles : List String) : Except Fault (List String) :=
  match c.quantities with
  | [] => .error (.settings .noQuantities)
  | first :: _ =>
    match firstRepeated [] titles with
    | some title => .error (.duplicateColumn (schemeColumn first title) (.repeatedTitle title))
    | none => addColumns [c.axis] (c.pairs titles)

/-! ### Levels -/

/-- Inserts the cell of a quantity in each scheme's row. -/
def addQuantity (quantity : String) (merged : Row) : List (String × Row) → Except Fault Row
  | [] => .ok merged
  | (title, row) :: rest => do
    let cell ← row.require quantity
    addQuantity quantity (merged.insert (schemeColumn quantity title) cell) rest

/-- Inserts the cells of quantities, each in every scheme's row. -/
def addQuantities (level : List (String × Row)) (merged : Row) :
    List String → Except Fault Row
  | [] => .ok merged
  | quantity :: rest => do
    let merged ← addQuantity quantity merged level
    addQuantities level merged rest

/-- The row of one level, of which every scheme has a row. -/
def levelRow (c : Comparison) (titles : List String) (first : Row) (others : List Row) :
    Except Fault Row := do
  let axis ← first.require c.axis
  addQuantities (titles.zip (first :: others)) (Row.empty.insert c.axis axis) c.quantities

/-! ### Lockstep -/

/-- Asks every stream for its next row. Those that have none left give none. -/
def nextLevel : List Reading → Except Fault (List Row × List Reading)
  | [] => .ok ([], [])
  | reading :: rest => do
    let (row, reading) ← reading.next
    let (level, rest) ← nextLevel rest
    pure (row.toList ++ level, reading :: rest)

/-- Merges level after level until a stream has ended, and gives the merged rows
and how far every stream was read. It goes along the first stream, of which
`count` rows have been read. -/
def lockstep (c : Comparison) (titles : List String) (rows : List Row) (count : Nat)
    (others : List Reading) : RowStream → Except Fault (List Row × List Reading)
  | [] => do
    let (_, others) ← nextLevel others
    pure (rows, ⟨[], count, true⟩ :: others)
  | .error fault :: _ => .error fault
  | .ok first :: left => do
    let (level, others) ← nextLevel others
    if others.any Reading.ended then pure (rows, ⟨left, count + 1, false⟩ :: others)
    else
      let merged ← c.levelRow titles first level
      c.lockstep titles (rows ++ [merged]) (count + 1) others left

/-- The numbers of rows of all streams. -/
def drainAll : List Reading → Except Fault (List Nat)
  | [] => .ok []
  | reading :: rest => do
    let length ← reading.drain
    let lengths ← drainAll rest
    pure (length :: lengths)

/-- The title of the first scheme without rows. -/
def firstEmpty : List (String × Nat) → Option String
  | [] => none
  | (title, length) :: rest => if length = 0 then some title else firstEmpty rest

/-- The truncation of schemes to a number of levels, if one of them has another
number of rows. -/
def truncation? (common : Nat) (lengths : List (String × Nat)) : Option Truncation :=
  if lengths.any fun (_, length) => length ≠ common then some ⟨common, lengths⟩ else none

/-- The compared table of schemes. -/
def merge (c : Comparison) (schemes : List Scheme) : Except Fault ComparedTable :=
  match schemes with
  | [] => .error (.settings .noSchemes)
  | first :: others => do
    let titles := schemes.map Scheme.title
    let columns ← c.columns titles
    let (rows, readings) ←
      c.lockstep titles [] 0 (others.map fun scheme => Reading.start scheme.rows) first.rows
    let lengths := titles.zip (← drainAll readings)
    match firstEmpty lengths with
    | some title => throw (.emptyScheme title)
    | none => pure ⟨columns, rows, truncation? rows.length lengths⟩

end Comparison

end RefinementTables
