import RefinementTables.CommandLine.Invocation

/-!
The options and positional arguments of the commands.

Each option says how it is spelled and what it does to a draft, the arguments
gathered so far. An option that was given is not given again; lists, which grow,
and the verbosity, which counts, are the exceptions.
-/

namespace RefinementTables.CommandLine

/-- The arguments gathered so far at one level of the command line. -/
structure Draft where
  configuration : Option String
  verbosity : Option Nat
  quiet : Bool
  /-- The inputs of a merge, or the input and the output of another command. -/
  positionals : List String
  caption : Option String
  outPrefix : Option String
  plot : Option FigureFormat
  noPlot : Bool
  column : Option String
  factor : Option Binary64
  overrides : Overrides

def Draft.empty : Draft :=
  ⟨none, none, false, [], none, none, none, false, none, none, .none⟩

/-- A change of a draft, or the misuse that it is. -/
abbrev Change := Draft → Except Misuse Draft

/-- What an option does. -/
inductive Action where
  | flag (change : Change)
  | value (change : String → Change)

/-- An option: its long spellings, perhaps a short one, and what it does. -/
structure Spec where
  long : List String
  short : Option Char
  action : Action

/-- What the positional arguments of a command are. -/
inductive Positionals where
  | none
  /-- Exactly so many paths. -/
  | paths (count : Nat)
  /-- At least so many texts, without an option among them. -/
  | texts (least : Nat)
deriving DecidableEq, Repr

/-! ### Values -/

def text (s : String) : Except Misuse String := .ok s

/-- A path, which is not empty. -/
def path (s : String) : Except Misuse String :=
  if s = "" then .error .missingValue else .ok s

/-- A field delimiter: one character, or a name for the tab. -/
def delimiter (s : String) : Except Misuse Char :=
  if s = "tab" || s = "\\t" then .ok '\t'
  else match s.toList with
    | [c] => .ok c
    | _ => .error .wrongValue

def number (s : String) : Except Misuse Binary64 :=
  match Binary64.read s with
  | some x => .ok x
  | none => .error .wrongValue

def sentinel (s : String) : Except Misuse Sentinel :=
  (Sentinel.ofText s).mapError fun _ => .wrongValue

def figureFormat (s : String) : Except Misuse FigureFormat :=
  (FigureFormat.ofText s).mapError fun _ => .wrongValue

/-! ### Kinds of option -/

/-- A flag that is given at most once. -/
def flag (name : String) (isSet : Draft → Bool) (set : Draft → Draft) : Spec where
  long := [name]
  short := none
  action := .flag fun d => if isSet d then .error .conflict else .ok (set d)

/-- An option with a value that is given at most once. -/
def single {α : Type} (name : String) (convert : String → Except Misuse α)
    (get : Draft → Option α) (set : α → Draft → Draft) : Spec where
  long := [name]
  short := none
  action := .value fun s d =>
    if (get d).isSome then .error .conflict else (convert s).map (set · d)

/-- An option whose values, split at commas, are gathered. -/
def gathered (name : String) (add : List String → Draft → Draft) : Spec where
  long := [name]
  short := none
  action := .value fun s d => .ok (add (Text.splitText ',' s) d)

/-- An option with a short spelling. -/
def withShort (c : Char) (s : Spec) : Spec := { s with short := some c }

/-! ### Tables of options -/

/-- The options of every level. -/
def globalOptions : List Spec :=
  [withShort 'c' (single "config" path (·.configuration)
      fun s d => { d with configuration := some s }),
   withShort 'v' {
      long := ["verbose"]
      short := none
      action := .flag fun d =>
        .ok { d with verbosity := some (min 255 (d.verbosity.getD 0 + 1)) } },
   withShort 'q' (flag "quiet" (·.quiet) fun d => { d with quiet := true }),
   { long := ["help"], short := some 'h', action := .flag fun _ => .error .helpWanted }]

/-- The option that asks for the version, before any command. -/
def versionOption : Spec where
  long := ["version"]
  short := some 'V'
  action := .flag fun _ => .error .versionWanted

/-- The options about tables, which every command has. -/
def tableOptions : List Spec :=
  [gathered "quantities" fun xs d =>
      { d with overrides.quantities := d.overrides.quantities ++ xs },
   gathered "columns" fun xs d =>
      { d with overrides.columns := d.overrides.columns ++ xs },
   flag "columns-from-header" (·.overrides.columnsFromHeader) fun d =>
      { d with overrides.columnsFromHeader := true },
   { single "axis" text (·.overrides.axis) fun s d => { d with overrides.axis := some s } with
      long := ["axis", "runtype"] },
   single "delimiter" delimiter (·.overrides.delimiter) fun c d =>
      { d with overrides.delimiter := some c },
   single "sentinel" sentinel (·.overrides.sentinel) fun s d =>
      { d with overrides.sentinel := some s },
   flag "header" (·.overrides.header) fun d => { d with overrides.header := true },
   flag "allow-invalid" (·.overrides.lenient) fun d => { d with overrides.lenient := true }]

def mergeOptions : List Spec :=
  [single "caption" text (·.caption) fun s d => { d with caption := some s },
   withShort 'p' (single "out-prefix" path (·.outPrefix)
      fun s d => { d with outPrefix := some s }),
   single "plot-format" figureFormat (·.plot) fun f d => { d with plot := some f },
   flag "no-plot" (·.noPlot) fun d => { d with noPlot := true }]

def scaleOptions : List Spec :=
  [single "column" text (·.column) fun s d => { d with column := some s },
   single "factor" number (·.factor) fun x d => { d with factor := some x }]

/-- A level of the command line: the options it knows and its positional
arguments. -/
structure Level where
  options : List Spec
  positionals : Positionals

def rootLevel : Level := ⟨versionOption :: globalOptions, .none⟩

/-- The names of the commands. -/
inductive CommandName where
  | merge
  | eoc
  | scale
deriving DecidableEq, Repr

namespace CommandName

def ofText? : String → Option CommandName
  | "merge" => some merge
  | "eoc" => some eoc
  | "scale" => some scale
  | _ => none

def level : CommandName → Level
  | merge => ⟨mergeOptions ++ tableOptions ++ globalOptions, .texts 2⟩
  | eoc => ⟨tableOptions ++ globalOptions, .paths 2⟩
  | scale => ⟨scaleOptions ++ tableOptions ++ globalOptions, .paths 2⟩

/-- The command that a draft amounts to, if nothing that it needs is missing. -/
def command (name : CommandName) (d : Draft) : Except Misuse Command :=
  match name, d.positionals with
  | merge, [] => .error .missingArgument
  | merge, inputs =>
    .ok (.merge inputs (d.caption.getD "") (d.outPrefix.getD "out") (d.plot.getD .tex) d.noPlot
      d.overrides)
  | eoc, [input, output] => .ok (.eoc input output d.overrides)
  | scale, [input, output] =>
    match d.column, d.factor with
    | some column, some factor => .ok (.scale input output column factor d.overrides)
    | _, _ => .error .missingArgument
  | _, _ => .error .missingArgument

end CommandName

end RefinementTables.CommandLine
