import RefinementTables.Delimited.Field
import RefinementTables.FileTree
import RefinementTables.Row

/-!
Reading a table under a declared schema.

The columns are the caller's; the file's first record is data unless it is
skipped as a header. A record whose number of fields is not that of the schema
is a fault in its own place, and reading goes on after it.
-/

namespace RefinementTables

/-- A table that is being read: what is left of its records, and how many rows
have been read. -/
structure Source where
  path : String
  columns : List String
  pending : List (Except DelimitedFault Delimited.Entry)
  yielded : Nat

/-- The records of what a path leads to. A directory opens like a file and fails
once when it is read. -/
def recordsAt (t : FileTree) (path : String) (delimiter : UInt8) :
    Except Fault (List (Except DelimitedFault Delimited.Entry)) :=
  match t.find path with
  | .error .noEntry => .error (.sourceNotFound path)
  | .error cause => .error (.io (.system cause))
  | .ok (_, .directory) => .ok [.error (.system .isDirectory)]
  | .ok (_, .file bytes) => .ok (Delimited.entries delimiter bytes)

/-- The fields of a file's first record, as a schema. -/
def namesInHeader (t : FileTree) (path : String) (delimiter : UInt8) :
    Except Fault (List String) := do
  match ← recordsAt t path delimiter with
  | [] => throw (.settings (.emptyHeader path))
  | .ok entry :: _ => pure entry.fields
  | .error fault :: _ => throw (.delimited fault)

namespace Source

def ofTree (t : FileTree) (path : String) (delimiter : UInt8) (columns : List String) :
    Except Fault Source := do
  let pending ← recordsAt t path delimiter
  pure ⟨path, columns, pending, 0⟩

/-- The row of an entry under a schema. -/
def rowOf (path : String) (columns : List String) (entry : Delimited.Entry) : Except Fault Row :=
  if entry.fields.length = columns.length then
    .ok ((Row.ofPairs (columns.zip (entry.fields.map Cell.text))).located ⟨path, entry.line⟩)
  else .error (.malformedRow path entry.line columns.length entry.fields.length)

/-- The item that a record gives. -/
def itemOf (path : String) (columns : List String) :
    Except DelimitedFault Delimited.Entry → Except Fault Row
  | .error fault => .error (.delimited fault)
  | .ok entry => rowOf path columns entry

/-- Passes over one record, whatever its number of fields. -/
def passHeader (s : Source) : Except Fault Unit × Source :=
  match s.pending with
  | [] => (.ok (), s)
  | .ok _ :: rest => (.ok (), { s with pending := rest })
  | .error fault :: rest => (.error (.delimited fault), { s with pending := rest })

/-- The next item, if one is left. -/
def next (s : Source) : Option (Except Fault Row) × Source :=
  match s.pending with
  | [] => (none, s)
  | record :: rest =>
    let item := itemOf s.path s.columns record
    (some item, { s with
      pending := rest, yielded := s.yielded + if item.isOk then 1 else 0 })

/-- All items that are left. -/
def rows (s : Source) : RowStream :=
  s.pending.map (itemOf s.path s.columns)

/-- The source after all its items. -/
def exhausted (s : Source) : Source :=
  { s with pending := [], yielded := s.yielded + s.rows.countP Except.isOk }

end Source

end RefinementTables
