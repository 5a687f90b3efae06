import RefinementTables.Plot.Figure
import RefinementTables.Toml.Quote

/-!
Figures in TOML, for tools that draw their own: the figure's texts, a table
`groups` for each panel and in it a table `groups.series` for each curve. An
empty list of either is written as a key.
-/

namespace RefinementTables.Toml

def curve (c : Curve) : String :=
  "\n[[groups.series]]\n" ++ assignment "legend" c.legend ++ assignment "x" c.x ++
    assignment "y" c.y ++ assignment "color" c.color ++ assignment "mark" c.mark

def panel (p : Panel) : String :=
  "\n[[groups]]\n" ++ assignment "quantity" p.quantity ++ assignment "x_label" p.xLabel ++
    (if p.curves.isEmpty then "series = []\n" else String.join (p.curves.map curve))

def render (figure : Figure) : String :=
  assignment "table" figure.table ++ assignment "separator" figure.separator ++
    assignment "caption" figure.caption ++
    (if figure.panels.isEmpty then "groups = []\n" else String.join (figure.panels.map panel))

end RefinementTables.Toml
