import RefinementTables.Binary64.Text

/-!
Values of TOML, and the rules by which a table grows.

A table is filled by assignments, by headers and by headers of arrays, and how it
came about decides what may still be added: a table with a header of its own or
in braces is complete for dotted keys, one that only a longer header implies may
still get its own header, and one made by dotted keys may get more of those.
-/

namespace RefinementTables.Toml

/-- How a table came about. -/
inductive Kind where
  /-- By its own header, or as the whole document. -/
  | headed
  /-- By the header of a table inside it. -/
  | implied
  /-- By a dotted key. -/
  | dotted
  /-- In braces. -/
  | braced
deriving DecidableEq, Repr

inductive Value where
  | text (s : String)
  | integer (n : Int)
  | float (x : Binary64)
  | boolean (b : Bool)
  /-- A date, a time, or both; nothing here needs to know which. -/
  | moment
  | list (items : List Value)
  | table (kind : Kind) (entries : List (String × Value))
  /-- An array of tables with headers. -/
  | tables (elements : List (List (String × Value)))
deriving Repr

/-- The entries of a table in the order of their keys. -/
abbrev Entries := List (String × Value)

namespace Entries

/-- Entries with another value for a key that is there. -/
def replace (key : String) (value : Value) (entries : Entries) : Entries :=
  entries.map fun (k, v) => if k = key then (k, value) else (k, v)

/-- A change of a table, which may be refused. -/
abbrev Change := Kind → Entries → Option (Kind × Entries)

/-- Changes the table at the end of a path of keys. Tables that are missing on
the way are made as `fresh` ones; an array of tables stands for its last
element, and a plain value ends the path. -/
def change (fresh : Kind) (f : Change) : List String → Change
  | [], kind, entries => f kind entries
  | key :: path, kind, entries =>
    match entries.lookup key with
    | none => do
      let (k, es) ← change fresh f path fresh []
      pure (kind, entries ++ [(key, .table k es)])
    | some (.table k es) =>
      if k = .braced || (fresh = .dotted && k = .headed) then none
      else do
        let (k, es) ← change fresh f path k es
        pure (kind, replace key (.table k es) entries)
    | some (.tables elements) => do
      let last ← elements.getLast?
      let (_, es) ← change fresh f path .headed last
      pure (kind, replace key (.tables (elements.dropLast ++ [es])) entries)
    | some _ => none

/-- Assigns a value to a key that is new, behind a path of dotted keys. -/
def assign (path : List String) (key : String) (value : Value) : Change :=
  change .dotted (fun kind entries =>
    if decide (kind = .dotted) == path.isEmpty || (entries.lookup key).isSome then none
    else some (kind, entries ++ [(key, value)])) path

/-- Gives a table its header. -/
def openTable (path : List String) (key : String) : Change :=
  change .implied (fun kind entries =>
    match entries.lookup key with
    | none => some (kind, entries ++ [(key, .table .headed [])])
    | some (.table .implied es) => some (kind, replace key (.table .headed es) entries)
    | some _ => none) path

/-- Adds an element to an array of tables. -/
def openElement (path : List String) (key : String) : Change :=
  change .implied (fun kind entries =>
    match entries.lookup key with
    | none => some (kind, entries ++ [(key, .tables [[]])])
    | some (.tables elements) => some (kind, replace key (.tables (elements ++ [[]])) entries)
    | some _ => none) path

end Entries

end RefinementTables.Toml
