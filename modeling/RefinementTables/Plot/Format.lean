import RefinementTables.Plot.Tex
import RefinementTables.Plot.Toml

/-!
The forms in which a figure can be written.
-/

namespace RefinementTables

inductive FigureFormat where
  | tex
  | toml
deriving DecidableEq, Repr

namespace FigureFormat

/-- The extension of a file in a format, which is also its name. -/
def extension : FigureFormat → String
  | tex => "tex"
  | toml => "toml"

/-- The format with the given name. -/
def ofText (text : String) : Except String FigureFormat :=
  if text = tex.extension then .ok tex
  else if text = toml.extension then .ok toml
  else .error s!"unknown plot format `{text}` (expected tex or toml)"

def render (format : FigureFormat) (figure : Figure) : String :=
  match format with
  | tex => Tex.Style.standard.render figure
  | toml => Toml.render figure

end FigureFormat

end RefinementTables
