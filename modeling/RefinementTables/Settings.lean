import RefinementTables.Preferences
import RefinementTables.Layout
import RefinementTables.Source

/-!
Settings: preferences with their gaps filled and everything checked that every
run depends on.
-/

namespace RefinementTables

/-- The axis and the quantities of a command where nothing names others. -/
structure Defaults where
  axis : String
  quantities : List String
deriving DecidableEq, Repr

namespace Defaults

def merge : Defaults where
  axis := "refine"
  quantities := ["L2t_velocity", "L2t_pressure", "L2t_h1_velocity", "maxV", "maxP"]

def eoc : Defaults where
  axis := "grid_width"
  quantities := ["L2_0", "L2_1"]

end Defaults

structure Settings where
  axis : String
  quantities : List String
  columns : Option (List String)
  columnsFromHeader : Bool
  delimiter : UInt8
  sentinel : Sentinel
  hasHeaderRow : Bool
  lenient : Bool
  palette : Palette
deriving DecidableEq, Repr

/-- Settings from preferences, with the gaps filled from a command's defaults.
Columns that are taken from the header imply a header. -/
def Preferences.resolve (p : Preferences) (defaults : Defaults) : Except Fault Settings := do
  if 128 ≤ p.delimiter.toNat then throw (.settings (.wideDelimiter p.delimiter))
  p.palette.check
  pure {
    axis := p.axis.getD defaults.axis
    quantities := if p.quantities.isEmpty then defaults.quantities else p.quantities
    columns := p.columns
    columnsFromHeader := p.columnsFromHeader
    delimiter := UInt8.ofNat p.delimiter.toNat
    sentinel := p.sentinel
    hasHeaderRow := p.hasHeaderRow || p.columnsFromHeader
    lenient := p.lenient
    palette := p.palette }

namespace Settings

/-- The columns of a file: its own header's when that is asked for, or those that
are declared, or the axis and the quantities. -/
def schemaOf (s : Settings) (t : FileTree) (path : String) : Except Fault (List String) :=
  if s.columnsFromHeader then namesInHeader t path s.delimiter
  else .ok (s.columns.getD (s.axis :: s.quantities))

/-- Refuses a schema that lacks a column. -/
def checkDeclared (path : String) (schema needed : List String) : Except Fault Unit :=
  match needed.filter fun column => column ∉ schema with
  | [] => .ok ()
  | missing => .error (.settings (.undeclared path missing schema))

/-- Opens a file under a schema, past its header if it has one. -/
def openWith (s : Settings) (t : FileTree) (path : String) (schema : List String) :
    Except Fault Source := do
  let source ← Source.ofTree t path s.delimiter schema
  if s.hasHeaderRow then
    match source.passHeader with
    | (.ok (), source) => pure source
    | (.error fault, _) => throw fault
  else pure source

/-- Opens a file for a run that needs some columns. -/
def openFor (s : Settings) (t : FileTree) (path : String) (needed : List String) :
    Except Fault Source := do
  let schema ← s.schemaOf t path
  checkDeclared path schema needed
  s.openWith t path schema

/-- Opens a file of a refinement study, which has the axis and all quantities. -/
def openStudy (s : Settings) (t : FileTree) (path : String) : Except Fault Source :=
  s.openFor t path (s.axis :: s.quantities)

/-- How a table with some columns is written. -/
def layout (s : Settings) (columns : List String) : Layout where
  columns := columns
  delimiter := s.delimiter
  sentinel := s.sentinel

end Settings

end RefinementTables
