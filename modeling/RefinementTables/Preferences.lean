import RefinementTables.FileTree
import RefinementTables.Plot.Palette
import RefinementTables.Row
import RefinementTables.Toml.Document

/-!
Preferences: what a configuration file and the command line may say about a run.

A configuration file is a document of TOML in which every key is optional and no
other key is allowed. The command line overrides what it names and leaves the
rest.
-/

namespace RefinementTables

structure Preferences where
  quantities : List String
  columns : Option (List String)
  columnsFromHeader : Bool
  axis : Option String
  sentinel : Sentinel
  hasHeaderRow : Bool
  delimiter : Char
  lenient : Bool
  palette : Palette
deriving DecidableEq, Repr

namespace Preferences

/-- The preferences of a run that names none. -/
def standard : Preferences where
  quantities := []
  columns := none
  columnsFromHeader := false
  axis := none
  sentinel := .absent
  hasHeaderRow := false
  delimiter := '\t'
  lenient := false
  palette := .standard

/-! ### Configuration files -/

section File

open Toml

def boolean? : Value → Option Bool
  | .boolean b => some b
  | _ => none

def text? : Value → Option String
  | .text s => some s
  | _ => none

def texts? : Value → Option (List String)
  | .list items => items.mapM text?
  | _ => none

/-- A text of exactly one character. -/
def char? : Value → Option Char
  | .text s =>
    match s.toList with
    | [c] => some c
    | _ => none
  | _ => none

/-- Whether a value holds nothing. -/
def isHollow : Value → Bool
  | .list [] => true
  | .table _ [] => true
  | _ => false

/-- A sentinel: its literal, or a table with the literal as its only key and
nothing under it. -/
def sentinel? : Value → Option Sentinel
  | .text s => (Sentinel.ofText s).toOption
  | .table _ [(key, v)] => if isHollow v then (Sentinel.ofText key).toOption else none
  | _ => none

/-- A palette: a table, in which a list that is missing is the standard one and
other keys mean nothing, or a list with the colors and then the marks. A moment
names neither list, so it leaves both as they are in the standard palette. -/
def palette? : Value → Option Palette
  | .table _ entries => do
    let colors ← (entries.lookup "colors").elim (some Palette.standard.colors) texts?
    let marks ← (entries.lookup "marks").elim (some Palette.standard.marks) texts?
    pure ⟨colors, marks⟩
  | .list items => do
    let colors ← items[0]?.elim (some Palette.standard.colors) texts?
    let marks ← items[1]?.elim (some Palette.standard.marks) texts?
    pure ⟨colors, marks⟩
  | .moment => some .standard
  | _ => none

/-- Preferences with what one key of a configuration says. -/
def withEntry (p : Preferences) (entry : String × Value) : Option Preferences :=
  match entry with
  | ("quantities", v) => (texts? v).map fun quantities => { p with quantities }
  | ("columns", v) => (texts? v).map fun columns => { p with columns := some columns }
  | ("columns_from_header", v) =>
    (boolean? v).map fun columnsFromHeader => { p with columnsFromHeader }
  | ("axis", v) => (text? v).map fun axis => { p with axis := some axis }
  | ("sentinel", v) => (sentinel? v).map fun sentinel => { p with sentinel }
  | ("has_header_row", v) => (boolean? v).map fun hasHeaderRow => { p with hasHeaderRow }
  | ("delimiter", v) => (char? v).map fun delimiter => { p with delimiter }
  | ("allow_invalid", v) => (boolean? v).map fun lenient => { p with lenient }
  | ("palette", v) => (palette? v).map fun palette => { p with palette }
  | _ => none

/-- The preferences that a text states. -/
def ofText (text : String) : Except Fault Preferences :=
  match Toml.parse text with
  | none => .error (.configuration "not a TOML document")
  | some entries =>
    match entries.foldlM withEntry standard with
    | none => .error (.configuration "an unknown key or a value of the wrong type")
    | some p => .ok p

end File

/-- The preferences in a configuration file. -/
def load (t : FileTree) (path : String) : Except Fault Preferences :=
  match t.find path with
  | .error .noEntry => .error (.sourceNotFound path)
  | .error cause => .error (.io (.system cause))
  | .ok (_, .directory) => .error (.io (.system .isDirectory))
  | .ok (_, .file bytes) =>
    match Text.ofBytes? bytes with
    | none => .error (.io .notText)
    | some text => ofText text

end Preferences

/-! ### Overrides -/

/-- What the command line may say about tables. -/
structure Overrides where
  quantities : List String
  columns : List String
  columnsFromHeader : Bool
  axis : Option String
  delimiter : Option Char
  sentinel : Option Sentinel
  header : Bool
  lenient : Bool
deriving DecidableEq, Repr

namespace Overrides

/-- The overrides of a command line without options. -/
def none : Overrides := ⟨[], [], false, .none, .none, .none, false, false⟩

/-- Preferences with what the command line says in the place of what they
said. -/
def apply (o : Overrides) (p : Preferences) : Preferences where
  quantities := if o.quantities.isEmpty then p.quantities else o.quantities
  columns := if o.columns.isEmpty then p.columns else some o.columns
  columnsFromHeader := p.columnsFromHeader || o.columnsFromHeader
  axis := o.axis.or p.axis
  sentinel := o.sentinel.getD p.sentinel
  hasHeaderRow := p.hasHeaderRow || o.header
  delimiter := o.delimiter.getD p.delimiter
  lenient := p.lenient || o.lenient
  palette := p.palette

end Overrides

end RefinementTables
