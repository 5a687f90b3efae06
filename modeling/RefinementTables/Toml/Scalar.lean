import RefinementTables.Toml.Value

/-!
Reading the values of TOML that hold no others: strings in their four forms,
truth values, integers, floats, and dates and times. A reader takes a value off
the front of a text or refuses the text.
-/

namespace RefinementTables.Toml

/-- Takes something off the front of a text, or refuses. -/
abbrev Reader := StateT (List Char) Option

namespace Reader

/-- What is left of the text. -/
def rest : Reader (List Char) := get

/-- Refuses the text. -/
def refuse {α : Type} : Reader α := fun _ => none

/-- Takes the next character if it satisfies `p`. -/
def next (p : Char → Bool) : Reader Char := fun
  | [] => none
  | c :: cs => if p c then some (c, cs) else none

/-- Takes a given text. -/
def exactly (word : String) : Reader Unit := fun cs =>
  if word.toList.isPrefixOf cs then some ((), cs.drop word.toList.length) else none

/-- Takes the longest run of characters that satisfy `p`. -/
def run (p : Char → Bool) : Reader (List Char) := fun cs =>
  some (cs.takeWhile p, cs.dropWhile p)

/-- Whether the text goes on with a given word, of which nothing is taken. -/
def startsWith (word : String) : Reader Bool := fun cs =>
  some (word.toList.isPrefixOf cs, cs)

/-- Takes exactly `n` characters that satisfy `p`. -/
def exactCount (p : Char → Bool) : Nat → Reader (List Char)
  | 0 => pure []
  | n + 1 => do
    let c ← next p
    let cs ← exactCount p n
    pure (c :: cs)

end Reader

open Reader

/-! ### Space, comments and line ends -/

def isSpace (c : Char) : Bool := c = ' ' || c = '\t'

/-- A character of a comment: no control character but the tab. -/
def isCommentChar (c : Char) : Bool := c = '\t' || (0x20 ≤ c.toNat && c.toNat ≠ 0x7F)

def space : Reader Unit := do
  let _ ← run isSpace

def newline : Reader Unit := do
  let _ ← optional (exactly "\r")
  exactly "\n"

def comment : Reader Unit := do
  exactly "#"
  let _ ← run isCommentChar

/-- The end of a line, or of the text, perhaps after a comment. -/
def endOfLine : Reader Unit := do
  space
  let _ ← optional comment
  if (← rest).isEmpty then pure () else newline

/-- Space and line ends, up to something else. -/
def blankLines : Nat → Reader Unit
  | 0 => pure ()
  | fuel + 1 => do
    space
    match ← optional newline with
    | some () => blankLines fuel
    | none => pure ()

/-- Space, line ends and comments, up to something else. -/
def spaceAndLines : Nat → Reader Unit
  | 0 => pure ()
  | fuel + 1 => do
    space
    let _ ← optional comment
    match ← optional newline with
    | some () => spaceAndLines fuel
    | none => pure ()

/-! ### Strings -/

def isHexDigit (c : Char) : Bool :=
  c.isDigit || ('a' ≤ c && c ≤ 'f') || ('A' ≤ c && c ≤ 'F')

def hexValue (c : Char) : Nat :=
  if c.isDigit then c.toNat - '0'.toNat
  else if 'a' ≤ c then c.toNat - 'a'.toNat + 10
  else c.toNat - 'A'.toNat + 10

/-- A character by its number in `n` digits of base sixteen; surrogates are no
characters. -/
def numberedChar (n : Nat) : Reader Char := do
  let digits ← exactCount isHexDigit n
  let code := digits.foldl (fun v c => 16 * v + hexValue c) 0
  if code < 0xD800 || (0xE000 ≤ code && code < 0x110000) then pure (Char.ofNat code) else refuse

/-- What follows the backslash of an escape. -/
def escaped : Reader Char := do
  match ← next fun _ => true with
  | 'b' => pure '\x08'
  | 't' => pure '\t'
  | 'n' => pure '\n'
  | 'f' => pure '\x0C'
  | 'r' => pure '\r'
  | '"' => pure '"'
  | '\\' => pure '\\'
  | 'u' => numberedChar 4
  | 'U' => numberedChar 8
  | _ => refuse

/-- The rest of a basic string, up to its closing quote. -/
def basicBody : Nat → Reader (List Char)
  | 0 => refuse
  | fuel + 1 => do
    match ← next fun _ => true with
    | '"' => pure []
    | '\\' => do
      let c ← escaped
      let cs ← basicBody fuel
      pure (c :: cs)
    | c =>
      if isCommentChar c then do
        let cs ← basicBody fuel
        pure (c :: cs)
      else refuse

/-- The rest of a literal string, up to its closing apostrophe. -/
def literalBody : Reader (List Char) := do
  let cs ← run fun c => isCommentChar c && c ≠ '\''
  exactly "'"
  pure cs

/-- Takes a run of the mark that delimits a string over several lines. Fewer than
three belong to the text; from three on the last three close it, and at most two
may stand before them. -/
def closing (mark : Char) : Reader (List Char × Bool) := do
  let marks ← run (· = mark)
  if marks.length < 3 then pure (marks, false)
  else if marks.length ≤ 5 then pure (marks.drop 3, true)
  else refuse

/-- The rest of a string over several lines; `escapes` tells a basic one. A
backslash at the end of a line takes the line's end and all space after it. -/
def severalLinesBody (mark : Char) (escapes : Bool) : Nat → Reader (List Char)
  | 0 => refuse
  | fuel + 1 => do
    match ← rest with
    | [] => refuse
    | c :: _ =>
      if c = mark then
        let (marks, closed) ← closing mark
        if closed then pure marks
        else do
          let cs ← severalLinesBody mark escapes fuel
          pure (marks ++ cs)
      else if c = '\n' || c = '\r' then do
        newline
        let cs ← severalLinesBody mark escapes fuel
        pure ('\n' :: cs)
      else if escapes && c = '\\' then do
        exactly "\\"
        let folded := do
          space
          newline
          blankLines fuel
        match ← optional folded with
        | some () => severalLinesBody mark escapes fuel
        | none => do
          let c ← escaped
          let cs ← severalLinesBody mark escapes fuel
          pure (c :: cs)
      else do
        let c ← next isCommentChar
        let cs ← severalLinesBody mark escapes fuel
        pure (c :: cs)

/-- A string of one line, as keys are too. -/
def lineString : Reader String := do
  match ← next fun _ => true with
  | '"' => do
    let fuel := (← rest).length
    let cs ← basicBody fuel
    pure (String.ofList cs)
  | '\'' => do
    let cs ← literalBody
    pure (String.ofList cs)
  | _ => refuse

/-- A string over several lines; a line end right after the opening is not part
of it. -/
def severalLinesString (mark : Char) : Reader String := do
  exactly (String.ofList [mark, mark, mark])
  let _ ← optional newline
  let fuel := (← rest).length + 1
  let cs ← severalLinesBody mark (mark = '"') fuel
  pure (String.ofList cs)

/-- A string in any form. -/
def string : Reader String := do
  if ← startsWith "\"\"\"" then severalLinesString '"'
  else if ← startsWith "'''" then severalLinesString '\''
  else lineString

/-! ### Numbers -/

/-- At least one digit, with single underscores between digits. -/
def digitGroups (p : Char → Bool) : Nat → Reader (List Char)
  | 0 => refuse
  | fuel + 1 => do
    let d ← next p
    match ← rest with
    | '_' :: _ => do
      exactly "_"
      let ds ← digitGroups p fuel
      pure (d :: ds)
    | c :: _ =>
      if p c then do
        let ds ← digitGroups p fuel
        pure (d :: ds)
      else pure [d]
    | [] => pure [d]

/-- Digits, as many as there are. -/
def digits (p : Char → Bool) : Reader (List Char) := do
  let fuel := (← rest).length + 1
  digitGroups p fuel

def sign : Reader (List Char) := do
  match ← rest with
  | '+' :: _ => do
    exactly "+"
    pure ['+']
  | '-' :: _ => do
    exactly "-"
    pure ['-']
  | _ => pure []

/-- The sign and the digits of a decimal integer, which has no leading zero. -/
def decimalDigits : Reader (List Char × List Char) := do
  let signed ← sign
  if ← startsWith "0" then do
    exactly "0"
    pure (signed, ['0'])
  else do
    let ds ← digits Char.isDigit
    pure (signed, ds)

/-- The value of digits in a base. -/
def inBase (base : Nat) (ds : List Char) : Nat :=
  ds.foldl (fun v c => base * v + hexValue c) 0

/-- An integer of sixty-four bits. -/
def bounded (n : Int) : Reader Int :=
  if -(Nat.pow 2 63 : Nat) ≤ n && n < (Nat.pow 2 63 : Nat) then pure n else refuse

def integer : Reader Int := do
  if ← startsWith "0x" then do
    exactly "0x"
    let ds ← digits isHexDigit
    bounded (inBase 16 ds)
  else if ← startsWith "0o" then do
    exactly "0o"
    let ds ← digits fun c => '0' ≤ c && c ≤ '7'
    bounded (inBase 8 ds)
  else if ← startsWith "0b" then do
    exactly "0b"
    let ds ← digits fun c => c = '0' || c = '1'
    bounded (inBase 2 ds)
  else do
    let (signed, ds) ← decimalDigits
    let n := (inBase 10 ds : Int)
    bounded (if signed = ['-'] then -n else n)

/-- The exponent of a float. -/
def exponentPart : Reader (List Char) := do
  let _ ← next fun c => c = 'e' || c = 'E'
  let signed ← sign
  let ds ← digits Char.isDigit
  pure ('e' :: signed ++ ds)

/-- The fraction of a float. -/
def fractionPart : Reader (List Char) := do
  exactly "."
  let ds ← digits Char.isDigit
  pure ('.' :: ds)

/-- A float: a decimal integer with a fraction, an exponent or both, or one of
the words `inf` and `nan`. A float too large for the format is refused when it
is positive. -/
def float : Reader Binary64 := do
  let word := do
    let signed ← sign
    if ← startsWith "inf" then do
      exactly "inf"
      pure (Binary64.infinity (signed = ['-']))
    else do
      exactly "nan"
      pure (Binary64.notANumber (signed = ['-']))
  match ← optional word with
  | some x => pure x
  | none => do
    let (signed, ds) ← decimalDigits
    let fraction ← optional fractionPart
    let exponent ← if fraction.isSome then optional exponentPart else some <$> exponentPart
    let text := signed ++ ds ++ fraction.getD [] ++ exponent.getD []
    match Binary64.read (String.ofList text) with
    | some x => if x = .infinity false then refuse else pure x
    | none => refuse

/-! ### Dates and times -/

/-- A number of `n` digits between two bounds. -/
def bounds (n low high : Nat) : Reader Nat := do
  let ds ← exactCount Char.isDigit n
  let v := inBase 10 ds
  if low ≤ v && v ≤ high then pure v else refuse

def daysIn (year month : Nat) : Nat :=
  if month = 2 then
    if year % 4 = 0 && (year % 100 ≠ 0 || year % 400 = 0) then 29 else 28
  else if month ∈ [4, 6, 9, 11] then 30
  else 31

def date : Reader Unit := do
  let year ← bounds 4 0 9999
  exactly "-"
  let month ← bounds 2 1 12
  exactly "-"
  let _ ← bounds 2 1 (daysIn year month)

def time : Reader Unit := do
  let _ ← bounds 2 0 23
  exactly ":"
  let _ ← bounds 2 0 59
  exactly ":"
  let _ ← bounds 2 0 60
  let fraction := do
    exactly "."
    let _ ← next Char.isDigit
    let _ ← run Char.isDigit
  let _ ← optional fraction

/-- The distance from universal time. -/
def offset : Reader Unit := do
  let c ← next fun c => c ∈ ['Z', 'z', '+', '-']
  if c = '+' || c = '-' then do
    let _ ← bounds 2 0 23
    exactly ":"
    let _ ← bounds 2 0 59

/-- A date with or without a time, or a time. -/
def moment : Reader Unit := do
  match ← optional date with
  | some () => do
    let timeOfDay := do
      let _ ← next fun c => c ∈ ['T', 't', ' ']
      time
      let _ ← optional offset
    let _ ← optional timeOfDay
  | none => time

/-! ### Any of them -/

/-- A number, a date or a time. -/
def numeric : Reader Value := do
  match ← optional moment with
  | some () => pure .moment
  | none =>
    match ← optional float with
    | some x => pure (.float x)
    | none => .integer <$> integer

/-- A value that holds no others, told by its first character. -/
def scalar : Reader Value := do
  match ← rest with
  | '"' :: _ => .text <$> string
  | '\'' :: _ => .text <$> string
  | 't' :: _ => do
    exactly "true"
    pure (.boolean true)
  | 'f' :: _ => do
    exactly "false"
    pure (.boolean false)
  | 'i' :: _ => .float <$> float
  | 'n' :: _ => .float <$> float
  | c :: _ => if c.isDigit || c = '+' || c = '-' then numeric else refuse
  | [] => refuse

end RefinementTables.Toml
