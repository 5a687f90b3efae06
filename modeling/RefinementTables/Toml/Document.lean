import RefinementTables.Toml.Scalar

/-!
Documents of TOML.

A text is first read as statements, one to a line: assignments, headers of tables
and headers of array elements. The statements then build the document's table,
each in the table that the last header opened.
-/

namespace RefinementTables.Toml

open Reader

/-! ### Keys and values -/

/-- Arrays, braces and dotted keys nest less deeply than this. -/
def nestingLimit : Nat := 80

def isBareKeyChar (c : Char) : Bool :=
  c.isAlphanum || c = '-' || c = '_'

def simpleKey : Reader String := do
  match ← rest with
  | '"' :: _ => lineString
  | '\'' :: _ => lineString
  | _ => do
    let cs ← run isBareKeyChar
    if cs.isEmpty then refuse
    pure (String.ofList cs)

/-- Keys with dots between them. -/
def dottedKeys : Nat → Reader (List String)
  | 0 => refuse
  | fuel + 1 => do
    space
    let k ← simpleKey
    space
    if ← startsWith "." then do
      exactly "."
      let ks ← dottedKeys fuel
      pure (k :: ks)
    else pure [k]

/-- A dotted key: the path before its last part, and that part. -/
def dottedKey : Reader (List String × String) := do
  let ks ← dottedKeys (nestingLimit - 1)
  match ks.getLast? with
  | some k => pure (ks.dropLast, k)
  | none => refuse

mutual

/-- A value; `depth` is how far arrays and braces may still nest in it. -/
def value (depth : Nat) : Nat → Reader Value
  | 0 => refuse
  | fuel + 1 => do
    match ← rest with
    | '[' :: _ => do
      if depth = 0 then refuse
      exactly "["
      let items ← items (depth - 1) fuel
      pure (.list items)
    | '{' :: _ => do
      if depth = 0 then refuse
      exactly "\x7b"
      space
      if ← startsWith "\x7d" then do
        exactly "\x7d"
        pure (.table .braced [])
      else do
        let entries ← members (depth - 1) fuel []
        pure (.table .braced entries)
    | _ => scalar

/-- The rest of an array, up to its bracket. A comma may follow the last item. -/
def items (depth : Nat) : Nat → Reader (List Value)
  | 0 => refuse
  | fuel + 1 => do
    spaceAndLines fuel
    if ← startsWith "]" then do
      exactly "]"
      pure []
    else do
      let v ← value depth fuel
      spaceAndLines fuel
      if ← startsWith "," then do
        exactly ","
        let vs ← items depth fuel
        pure (v :: vs)
      else do
        exactly "]"
        pure [v]

/-- The rest of a table in braces, up to its brace. -/
def members (depth : Nat) : Nat → Entries → Reader Entries
  | 0, _ => refuse
  | fuel + 1, entries => do
    let (path, key) ← dottedKey
    exactly "="
    space
    let v ← value depth fuel
    space
    match Entries.assign path key v .braced entries with
    | none => refuse
    | some (_, entries) =>
      if ← startsWith "," then do
        exactly ","
        members depth fuel entries
      else do
        exactly "\x7d"
        pure entries

end

/-! ### Statements -/

inductive Statement where
  | assignment (path : List String) (key : String) (value : Value)
  | header (path : List String) (key : String)
  | element (path : List String) (key : String)

def statement (fuel : Nat) : Reader Statement := do
  if ← startsWith "[[" then do
    exactly "[["
    let (path, key) ← dottedKey
    exactly "]]"
    endOfLine
    pure (.element path key)
  else if ← startsWith "[" then do
    exactly "["
    let (path, key) ← dottedKey
    exactly "]"
    endOfLine
    pure (.header path key)
  else do
    let (path, key) ← dottedKey
    exactly "="
    space
    let v ← value (nestingLimit - 1) fuel
    endOfLine
    pure (.assignment path key v)

/-- The statements of a text, with blank lines and comments between them. -/
def statements : Nat → Reader (List Statement)
  | 0 => refuse
  | fuel + 1 => do
    space
    match ← rest with
    | [] => pure []
    | c :: _ =>
      if c = '#' || c = '\n' || c = '\r' then do
        endOfLine
        statements fuel
      else do
        let s ← statement fuel
        let ss ← statements fuel
        pure (s :: ss)

/-! ### Building the table -/

/-- A document half built: its table, and the path of the table that the last
header opened. -/
structure Building where
  opened : List String
  entries : Entries

/-- Carries out one statement. -/
def Building.apply (b : Building) : Statement → Option Building
  | .assignment path key v => do
    let (_, entries) ←
      Entries.change .implied (Entries.assign path key v) b.opened .headed b.entries
    pure { b with entries }
  | .header path key => do
    let (_, entries) ← Entries.openTable path key .headed b.entries
    pure ⟨path ++ [key], entries⟩
  | .element path key => do
    let (_, entries) ← Entries.openElement path key .headed b.entries
    pure ⟨path ++ [key], entries⟩

/-- The entries of a document, if the text is one. A byte order mark may open
it. -/
def parse (text : String) : Option Entries := do
  let cs := match text.toList with
    | '\uFEFF' :: cs => cs
    | cs => cs
  let fuel := 2 * cs.length + 2
  let (ss, _) ← statements fuel cs
  let built ← ss.foldlM Building.apply ⟨[], []⟩
  pure built.entries

end RefinementTables.Toml
