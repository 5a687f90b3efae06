import RefinementTables.Plot.Format
import RefinementTables.Preferences

/-!
What a command line asks for, and the ways in which it can fail to ask for
anything.
-/

namespace RefinementTables

/-- A command with its own arguments. -/
inductive Command where
  | merge (inputs : List String) (caption outPrefix : String) (plot : FigureFormat)
      (noPlot : Bool) (overrides : Overrides)
  | eoc (input output : String) (overrides : Overrides)
  | scale (input output column : String) (factor : Binary64) (overrides : Overrides)
deriving DecidableEq, Repr

structure Invocation where
  configuration : Option String
  verbosity : Nat
  quiet : Bool
  command : Command
deriving DecidableEq, Repr

/-- The most verbose level of events that is shown. -/
def Invocation.shownLevel (i : Invocation) : String :=
  if i.quiet then "error"
  else match i.verbosity with
    | 0 => "info"
    | 1 => "debug"
    | _ => "trace"

/-- Why a command line is answered with usage and not with a run. -/
inductive Misuse where
  | helpWanted
  | versionWanted
  | helpOnNothing
  | unknownCommand
  | missingCommand
  | unknownArgument
  /-- An option without its value, or an empty path. -/
  | missingValue
  /-- A value that its option does not take. -/
  | wrongValue
  /-- A value for an option that takes none. -/
  | surplusValue
  | tooFewValues
  /-- An option given twice. -/
  | conflict
  | missingArgument
deriving DecidableEq, Repr

namespace Misuse

/-- The name of the kind of misuse. -/
def name : Misuse → String
  | helpWanted => "DisplayHelp"
  | versionWanted => "DisplayVersion"
  | helpOnNothing => "DisplayHelpOnMissingArgumentOrSubcommand"
  | unknownCommand => "InvalidSubcommand"
  | missingCommand => "MissingSubcommand"
  | unknownArgument => "UnknownArgument"
  | missingValue => "InvalidValue"
  | wrongValue => "ValueValidation"
  | surplusValue => "TooManyValues"
  | tooFewValues => "TooFewValues"
  | conflict => "ArgumentConflict"
  | missingArgument => "MissingRequiredArgument"

/-- The exit code: asking for help or the version is no failure. -/
def exitCode : Misuse → Nat
  | helpWanted => 0
  | versionWanted => 0
  | _ => 2

end Misuse

/-- The first half of the inputs of a merge are files, the second half their
titles. -/
def filesAndTitles (inputs : List String) : Except Fault (List String × List String) :=
  if inputs.length % 2 = 0 then
    .ok (inputs.take (inputs.length / 2), inputs.drop (inputs.length / 2))
  else .error (.settings (.oddInputs inputs.length))

end RefinementTables
