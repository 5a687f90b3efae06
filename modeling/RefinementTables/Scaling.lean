import RefinementTables.Row

/-!
Scaling one column. Every item of a stream is treated by itself: a row keeps all
cells but the scaled one, and a fault stays in its place.
-/

namespace RefinementTables

/-- A row with the number of one column multiplied by a factor. -/
def Row.scale (column : String) (factor : Binary64) (r : Row) : Except Fault Row := do
  let cell ← r.require column
  match cell.number? with
  | some x =>
    if x.isFinite then .ok (r.insert column (.number (factor.mul x)))
    else .error (r.invalid column cell)
  | none => .error (r.invalid column cell)

/-- A stream with one column multiplied by a factor. -/
def RowStream.scale (column : String) (factor : Binary64) (rows : RowStream) : RowStream :=
  rows.map fun item => item.bind (Row.scale column factor)

end RefinementTables
