import RefinementTables.Comparison
import RefinementTables.Plot.Palette

/-!
The description of a figure for a compared table: one panel for each quantity,
and in it one curve for each scheme. A curve refers to the table's columns by
name, the axis for its abscissa and the scheme's column for its ordinate.
-/

namespace RefinementTables

structure Curve where
  legend : String
  x : String
  y : String
  color : String
  mark : String
deriving DecidableEq, Repr

structure Panel where
  quantity : String
  xLabel : String
  curves : List Curve
deriving DecidableEq, Repr

structure Figure where
  table : String
  separator : String
  caption : String
  panels : List Panel
deriving DecidableEq, Repr

/-- The name under which plotting tools know a delimiter; one without a name is
named by itself. -/
def delimiterName (delimiter : UInt8) : String :=
  match Char.ofNat delimiter.toNat with
  | '\t' => "tab"
  | ',' => "comma"
  | ';' => "semicolon"
  | ':' => "colon"
  | ' ' => "space"
  | '&' => "ampersand"
  | other => String.singleton other

namespace Figure

def curve (axis quantity : String) (style : Style) : Curve where
  legend := style.title
  x := axis
  y := schemeColumn quantity style.title
  color := style.color
  mark := style.mark

def panel (axis : String) (styles : List Style) (quantity : String) : Panel where
  quantity := quantity
  xLabel := axis
  curves := styles.map (curve axis quantity)

/-- The figure of a compared table that is kept under the name `table`. -/
def ofComparison (c : Comparison) (styles : List Style) (table : String) (delimiter : UInt8)
    (caption : String) : Figure where
  table := table
  separator := delimiterName delimiter
  caption := caption
  panels := c.quantities.map (panel c.axis styles)

end Figure

end RefinementTables
