import RefinementTables.Event
import RefinementTables.Row

/-!
Convergence rates between two refinement levels.

The rate of a quantity `q` over a refinement axis `h` is
`ln (q / q') / ln (h / h')`, where the primed values are those of the level
before. The first level has no rate. A study names the axis and the quantities;
a lenient one leaves the rates of invalid measurements undefined and notes the
fault that it passed over. A repeated axis value stops it all the same, and so does
a missing column, unless a fault that is passed over keeps it from being looked at.

The rates of all quantities are worked out together, as vectors. A quantity that
is not measured keeps its component, and what comes out there is masked.
-/

namespace RefinementTables

/-- The axis and the quantities of a refinement study. -/
structure Study where
  axis : String
  quantities : List String
  lenient : Bool
deriving DecidableEq, Repr

inductive Rate where
  | undefined
  | value (x : Binary64)
deriving DecidableEq, Repr

def Rate.cell : Rate → Cell
  | undefined => .undefined
  | value x => .number x

/-- The observed order between two levels. -/
def observedOrder (qBefore q hBefore h : Binary64) : Binary64 :=
  (q.div qBefore).log.div (h.div hBefore).log

/-- The column that holds the rates of a quantity. -/
def rateName (quantity : String) : String := s!"EOC_{quantity}"

namespace Study

def rateNames (s : Study) : List String := s.quantities.map rateName

/-- Adds the rate columns of some quantities to columns. -/
def addRateNames (columns : List String) : List String → Except Fault (List String)
  | [] => .ok columns
  | quantity :: rest =>
    if rateName quantity ∈ columns then
      .error (.duplicateColumn (rateName quantity) (.rateOfQuantity quantity))
    else addRateNames (columns ++ [rateName quantity]) rest

/-- The columns of an augmented table: the source's, then a rate column for each
quantity. -/
def augmentedColumns (s : Study) (source : List String) : Except Fault (List String) :=
  addRateNames source s.quantities

/-- Whether a fault is passed over. -/
def tolerates (s : Study) (f : Fault) : Bool := s.lenient && f.isInvalidMeasurement

/-- The measurements of a column in two rows; the earlier row's fault comes
first. -/
def measures (column : String) (before row : Row) : Except Fault (Binary64 × Binary64) := do
  let a ← before.measure column
  let b ← row.measure column
  pure (a, b)

/-- What a computation comes to, and the faults that were passed over on the way. -/
structure Passing (α : Type) where
  passed : List Fault
  result : Except Fault α

def Passing.map {α β : Type} (f : α → β) (p : Passing α) : Passing β :=
  { passed := p.passed, result := p.result.map f }

/-- Rates, and the faults that were passed over on the way to them. -/
abbrev Rates := Passing (List Rate)

/-- A fault where a measurement was due: passed over, with something given to go on
with, or final. -/
def excuse {α : Type} (s : Study) (f : Fault) (rest : Passing α) : Passing α :=
  if s.tolerates f then { rest with passed := f :: rest.passed } else ⟨[], .error f⟩

/-- The quantities of two rows as vectors, with one component for each quantity: its
values before and now, and whether both are measured. -/
structure Readings where
  before : List Binary64
  now : List Binary64
  measured : List Bool
deriving DecidableEq, Repr

namespace Readings

/-- The vectors before anything is read. A component has ones until its values are
entered, so that all components can be worked on alike. -/
def blank (n : Nat) : Readings :=
  ⟨.replicate n .one, .replicate n .one, .replicate n true⟩

def enter (r : Readings) (i : Nat) (a b : Binary64) : Readings :=
  { r with before := r.before.set i a, now := r.now.set i b }

/-- Leaves a component as it is, and notes that it is not measured. -/
def leaveOut (r : Readings) (i : Nat) : Readings :=
  { r with measured := r.measured.set i false }

/-- The observed orders of all components, measured or not. -/
def orders (r : Readings) (hBefore h : Binary64) : List Binary64 :=
  ((List.zipWith Binary64.div r.now r.before).map Binary64.log).map
    (·.div (h.div hBefore).log)

/-- The orders, where they are those of measurements. -/
def rates (r : Readings) (hBefore h : Binary64) : List Rate :=
  List.zipWith (fun order measured => if measured then .value order else .undefined)
    (r.orders hBefore h) r.measured

end Readings

/-- Reads quantities of two rows into vectors, the first one at a given position. -/
def readFrom (s : Study) (before row : Row) (i : Nat) (r : Readings) :
    List String → Passing Readings
  | [] => ⟨[], .ok r⟩
  | quantity :: rest =>
    match measures quantity before row with
    | .ok (a, b) => s.readFrom before row (i + 1) (r.enter i a b) rest
    | .error fault => s.excuse fault (s.readFrom before row (i + 1) (r.leaveOut i) rest)

/-- No rate for any quantity. -/
def noRates (s : Study) : Rates := ⟨[], .ok (s.quantities.map fun _ => .undefined)⟩

/-- The rates between two rows, in the order of the quantities. -/
def rates (s : Study) (before : Option Row) (row : Row) : Rates :=
  match before with
  | none => s.noRates
  | some before =>
    match measures s.axis before row with
    | .error fault => s.excuse fault s.noRates
    | .ok (hBefore, h) =>
      if h = hBefore then ⟨[], .error (.degenerateRefinement s.axis h row.location)⟩
      else
        let readings := s.readFrom before row 0 (.blank s.quantities.length) s.quantities
        readings.map (·.rates hBefore h)

/-- The warning about a fault that was passed over. -/
def warning (f : Fault) : Event := .warning s!"{f.message}; rate left undefined"

end Study

end RefinementTables
