/-!
Strings of TOML as they are written.

Of the four forms of a string the first that can hold the text as it is is
taken: basic, literal, basic over several lines, literal over several lines. If
none can, the text is escaped, over several lines if it has a line feed. A form
for several lines opens with a line feed only when the text has one.
-/

namespace RefinementTables.Toml

/-- The length of the longest run of a character. -/
def longestRun (c : Char) (run : Nat) : List Char → Nat
  | [] => run
  | d :: ds => if d = c then longestRun c (run + 1) ds else max run (longestRun c 0 ds)

/-- Whether a character is a control character other than tab and line feed. -/
def isControl (c : Char) : Bool :=
  (c.toNat < 0x20 && c ≠ '\t' && c ≠ '\n') || c.toNat = 0x7F

/-- A digit of base sixteen, in upper case. -/
def hexDigit (n : Nat) : Char :=
  Char.ofNat (if n < 10 then '0'.toNat + n else 'A'.toNat + (n - 10))

/-- The escape of a character below 256 by its number. -/
def unicodeEscape (c : Char) : List Char :=
  ['\\', 'u', '0', '0', hexDigit (c.toNat / 16), hexDigit (c.toNat % 16)]

/-- A character of a basic string other than a quote. -/
def escapeChar (c : Char) : List Char :=
  match c with
  | '\x08' => ['\\', 'b']
  | '\t' => ['\\', 't']
  | '\x0C' => ['\\', 'f']
  | '\r' => ['\\', 'r']
  | '\\' => ['\\', '\\']
  | _ => if isControl c then unicodeEscape c else [c]

/-- The body of a basic string, in which at most `allowed` quotes stand side by
side; `run` of them stand before. -/
def escapeBasic (allowed run : Nat) : List Char → List Char
  | [] => []
  | c :: cs =>
    if c = '"' then
      if run < allowed then '"' :: escapeBasic allowed (run + 1) cs
      else '\\' :: '"' :: escapeBasic allowed 0 cs
    else escapeChar c ++ escapeBasic allowed 0 cs

/-- A string between delimiters of three quotes. -/
def severalLines (mark : Char) (body : List Char) : List Char :=
  let delimiter := [mark, mark, mark]
  delimiter ++ (if '\n' ∈ body then ['\n'] else []) ++ body ++ delimiter

/-- A text as a string of TOML. -/
def quote (text : List Char) : List Char :=
  let quotes := longestRun '"' 0 text
  let apostrophes := longestRun '\'' 0 text
  let control := text.any isControl
  let several := decide ('\n' ∈ text)
  let basic := !control && !text.contains '\\'
  if basic && quotes = 0 && !several then '"' :: escapeBasic 0 0 text ++ ['"']
  else if !control && apostrophes = 0 && !several then '\'' :: text ++ ['\'']
  else if basic && quotes ≤ 2 then severalLines '"' (escapeBasic 2 0 text)
  else if !control && apostrophes ≤ 2 then severalLines '\'' text
  else if several then severalLines '"' (escapeBasic 2 0 text)
  else '"' :: escapeBasic 0 0 text ++ ['"']

/-- A key with a string. -/
def assignment (key text : String) : String :=
  key ++ " = " ++ String.ofList (quote text.toList) ++ "\n"

end RefinementTables.Toml
