import RefinementTables.Fault

/-!
The rows of a table.

A row is a list of named cells in the order in which the columns were first
inserted.

* `get?_insert`, `columns_insert` — inserting under a name that is there replaces
  the cell in its place, and under a new name adds a cell at the end.
* `nodup_columns_insert` — so the names of a row built by insertions are pairwise
  distinct.
-/

namespace RefinementTables

/-- What is written for an undefined cell. -/
inductive Sentinel where
  | absent
  | notANumber
deriving DecidableEq, Repr

namespace Sentinel

def literal : Sentinel → String
  | absent => "none"
  | notANumber => "nan"

/-- The sentinel with the given literal. -/
def ofText (text : String) : Except String Sentinel :=
  if text = absent.literal then .ok absent
  else if text = notANumber.literal then .ok notANumber
  else .error s!"unknown sentinel `{text}` (expected none or nan)"

end Sentinel

/-- One cell: text as it was read, a number that was computed, or no value. -/
inductive Cell where
  | text (s : String)
  | number (x : Binary64)
  | undefined
deriving DecidableEq, Repr

namespace Cell

/-- The number in a cell, if there is one. -/
def number? : Cell → Option Binary64
  | text s => Binary64.read (Text.trim s)
  | number x => some x
  | undefined => none

/-- A cell as it stands in a table. -/
def render (sentinel : Sentinel) : Cell → String
  | text s => s
  | number x => x.tableText
  | undefined => sentinel.literal

end Cell

/-- One row of a table. -/
structure Row where
  cells : List (String × Cell)
  origin : Option Location
deriving DecidableEq, Repr

namespace Row

def empty : Row := ⟨[], none⟩

/-- Puts a cell under a name: in the place of the cell that is there, or at the
end. -/
def put (column : String) (cell : Cell) : List (String × Cell) → List (String × Cell)
  | [] => [(column, cell)]
  | (name, old) :: rest =>
    if name = column then (name, cell) :: rest else (name, old) :: put column cell rest

theorem lookup_put (column name : String) (cell : Cell) (cells : List (String × Cell)) :
    (put column cell cells).lookup name =
      if name = column then some cell else cells.lookup name := by
  induction cells with
  | nil =>
    by_cases h : name = column
    · simp [put, h]
    · simp [put, h, List.lookup_cons, beq_false_of_ne h]
  | cons entry rest ih =>
    obtain ⟨first, old⟩ := entry
    by_cases h : name = first
    · subst h
      by_cases hf : name = column <;> simp [put, hf]
    · by_cases hf : first = column
      · subst hf
        simp [put, h, List.lookup_cons, beq_false_of_ne h]
      · rw [put, if_neg hf, List.lookup_cons, List.lookup_cons, beq_false_of_ne h, ih]

theorem map_fst_put (column : String) (cell : Cell) (cells : List (String × Cell)) :
    (put column cell cells).map Prod.fst =
      if column ∈ cells.map Prod.fst then cells.map Prod.fst
      else cells.map Prod.fst ++ [column] := by
  induction cells with
  | nil => simp [put]
  | cons entry rest ih =>
    obtain ⟨first, old⟩ := entry
    by_cases hf : first = column
    · simp [put, hf]
    · rw [put, if_neg hf, List.map_cons, ih]
      by_cases h : column ∈ rest.map Prod.fst <;> simp [h, Ne.symm hf]

/-! ### Building rows -/

def insert (r : Row) (column : String) (cell : Cell) : Row :=
  { r with cells := put column cell r.cells }

/-- The row that results from inserting pairs one by one; it has no origin. -/
def ofPairs (pairs : List (String × Cell)) : Row :=
  pairs.foldl (fun r (column, cell) => r.insert column cell) empty

def located (r : Row) (location : Location) : Row :=
  { r with origin := some location }

/-! ### Reading rows -/

def get? (r : Row) (column : String) : Option Cell :=
  r.cells.lookup column

def columns (r : Row) : List String :=
  r.cells.map Prod.fst

/-- How many cells a row has. -/
def width (r : Row) : Nat :=
  r.cells.length

/-- Reading after an insertion. -/
@[simp] theorem get?_insert (r : Row) (column name : String) (cell : Cell) :
    (r.insert column cell).get? name = if name = column then some cell else r.get? name :=
  lookup_put column name cell r.cells

/-- A new column comes last, and one that is there keeps its place. -/
theorem columns_insert (r : Row) (column : String) (cell : Cell) :
    (r.insert column cell).columns =
      if column ∈ r.columns then r.columns else r.columns ++ [column] :=
  map_fst_put column cell r.cells

/-- Insertions keep the columns of a row distinct. -/
theorem nodup_columns_insert {r : Row} (h : r.columns.Nodup) (column : String) (cell : Cell) :
    (r.insert column cell).columns.Nodup := by
  rw [columns_insert]
  split
  · exact h
  · next absent =>
    refine List.nodup_append.mpr ⟨h, by simp, fun a ha b hb => ?_⟩
    rw [List.mem_singleton.mp hb]
    rintro rfl
    exact absent ha

@[simp] theorem origin_insert (r : Row) (column : String) (cell : Cell) :
    (r.insert column cell).origin = r.origin := rfl

/-- The location for error messages; a row without an origin has none on disk. -/
def location (r : Row) : Location :=
  r.origin.getD ⟨"<memory>", 0⟩

/-- The row in words, for messages about a missing column. -/
def describe (r : Row) : String :=
  match r.origin with
  | some location => location.text
  | none => "record"

/-- The cell of a column that has to be there. -/
def require (r : Row) (column : String) : Except Fault Cell :=
  match r.get? column with
  | some cell => .ok cell
  | none => .error (.incompleteRecord column r.describe)

/-- The fault of a cell that should hold a number and does not. -/
def invalid (r : Row) (column : String) (cell : Cell) : Fault :=
  .invalidMeasurement column (cell.render .notANumber) r.location

/-- The measurement in a column: a number that is finite and above zero. -/
def measure (r : Row) (column : String) : Except Fault Binary64 := do
  let cell ← r.require column
  match cell.number? with
  | some x => if x.isMeasure then .ok x else .error (r.invalid column cell)
  | none => .error (r.invalid column cell)

end Row

/-- A stream of rows: each item is a row or the fault that stands in its place. -/
abbrev RowStream := List (Except Fault Row)

end RefinementTables
