import RefinementTables.Fault

/-!
Colours and marks for the schemes of a plot. Both lists are handed out in order
and start again when they end, each by itself.
-/

namespace RefinementTables

structure Palette where
  colors : List String
  marks : List String
deriving DecidableEq, Repr

/-- How the curve of a scheme looks. -/
structure Style where
  title : String
  color : String
  mark : String
deriving DecidableEq, Repr

namespace Palette

/-- The palette of a run that names none. -/
def standard : Palette where
  colors := ["red", "blue", "green", "yellow", "cyan", "magenta", "black"]
  marks := ["|", "x", "o", "*", "-", "#", "@"]

/-- The entry at an index of a list that starts again when it ends. -/
def wrap (xs : List String) (index : Nat) : String :=
  xs[index % xs.length]?.getD ""

/-- Refuses a palette without colours or without marks. -/
def check (p : Palette) : Except Fault Unit :=
  if p.colors.isEmpty || p.marks.isEmpty then .error (.settings .emptyPalette) else .ok ()

/-- The style at an index. -/
def style (p : Palette) (title : String) (index : Nat) : Style :=
  ⟨title, wrap p.colors index, wrap p.marks index⟩

/-- One style for each title, in order. -/
def styles (p : Palette) (titles : List String) : Except Fault (List Style) := do
  p.check
  pure (titles.zipIdx.map fun (title, index) => p.style title index)

end Palette

end RefinementTables
