import RefinementTables.Plot.Figure

/-!
Figures in TeX: one subfloat with an axis environment for each panel, some number
of them to a line.

Labels are running text, in which the special characters of TeX are escaped.
Column names, colours and marks are options of the plotting package and stand as
they are.
-/

namespace RefinementTables.Tex

/-- The letters of a command that stands for a character, with the empty group
that ends it. -/
def command (name : String) : List Char := '\\' :: name.toList ++ ['{', '}']

/-- A character of running text, escaped if it is special. -/
def escapeChar (c : Char) : List Char :=
  if c ∈ ['_', '%', '&', '#', '$', '{', '}'] then ['\\', c]
  else if c = '\\' then command "textbackslash"
  else if c = '~' then command "textasciitilde"
  else if c = '^' then command "textasciicircum"
  else [c]

/-- A text with its special characters escaped. -/
def escape (s : String) : String :=
  String.ofList (s.toList.flatMap escapeChar)

/-- How panels are laid out. -/
structure Style where
  logarithmic : Bool
  panelsPerLine : Nat
deriving DecidableEq, Repr

/-- Logarithmic ordinates and two panels to a line. -/
def Style.standard : Style := ⟨true, 2⟩

namespace Style

/-- The environment that holds an axis. -/
def environment (s : Style) : String :=
  if s.logarithmic then "semilogyaxis" else "axis"

/-- A text in braces. -/
def group (text : String) : String := "\x7b" ++ text ++ "\x7d"

def curve (figure : Figure) (c : Curve) : String :=
  "\\addplot[color=" ++ c.color ++ ",mark=" ++ c.mark ++ "]\ntable[x=" ++ c.x ++ ",y=" ++ c.y ++
    ",col sep=" ++ figure.separator ++ "] " ++ group figure.table ++ ";\\addlegendentry" ++
    group (escape c.legend) ++ "\n"

/-- A panel, up to the break that follows it. -/
def panel (s : Style) (figure : Figure) (p : Panel) : String :=
  "\\subfloat\x7b\n\\begin" ++ group "tikzpicture" ++ "[scale=\\plotscale]\n" ++
    "\\begin" ++ group s.environment ++ "[\n" ++
    "legend style=" ++ group " at=\x7b(1.02,1)\x7d,anchor=north west" ++ ",\n" ++
    "xlabel=" ++ escape p.xLabel ++ ",\nylabel=$ERR_" ++ group (escape p.quantity) ++ "$]\n" ++
    String.join (p.curves.map (curve figure)) ++
    "\\end" ++ group s.environment ++ "\n\\end" ++ group "tikzpicture" ++ "\x7d"

/-- What follows the panel at an index: the last one on a line ends the line. -/
def lineBreak (s : Style) (index : Nat) : String :=
  if (index + 1) % max s.panelsPerLine 1 = 0 then "\\\\\n" else "\n"

def render (s : Style) (figure : Figure) : String :=
  "\\begin" ++ group "figure" ++ "\n" ++
    String.join (figure.panels.zipIdx.map fun (p, index) =>
      s.panel figure p ++ s.lineBreak index) ++
    "\\caption" ++ group (escape figure.caption) ++ "\\end" ++ group "figure" ++ "\n"

end Style

end RefinementTables.Tex
