/-!
Splitting a text at a separator and joining it again.
-/

namespace RefinementTables.Text

/-- The stretches between the occurrences of a separator: one more than there
are separators. -/
def split (separator : Char) : List Char → List (List Char)
  | [] => [[]]
  | c :: cs =>
    if c = separator then [] :: split separator cs
    else match split separator cs with
      | [] => [[c]]
      | part :: parts => (c :: part) :: parts

/-- Texts with a separator between neighbours. -/
def join (separator : Char) : List (List Char) → List Char
  | [] => []
  | [part] => part
  | part :: parts => part ++ separator :: join separator parts

/-- The parts of a text, as texts. -/
def splitText (separator : Char) (s : String) : List String :=
  (split separator s.toList).map String.ofList

end RefinementTables.Text
