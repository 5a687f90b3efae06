import RefinementTables.Text.Blank
import RefinementTables.Binary64.Text

/-!
Everything that can go wrong in a run, as causes.

`Fault.kind` names the class that a cause is reported under, `Fault.message` is
the one place where its wording is fixed, and `Fault.report` is the line shown
to the user: the message folded onto one line behind the kind.
-/

namespace RefinementTables

/-- Where a row came from: its file and the line on which it starts. -/
structure Location where
  path : String
  row : Nat
deriving DecidableEq, Repr

def Location.text (l : Location) : String := s!"{l.path}:{l.row}"

/-! ### Causes -/

/-- Why the file system refused an operation. -/
inductive SystemFault where
  | noEntry
  | notDirectory
  | isDirectory
  | busy
  | invalidArgument
  | nameTooLong
  /-- The name holds the character that ends names. -/
  | endedName
deriving DecidableEq, Repr

/-- A failed input or output. -/
inductive IoFault where
  /-- The system refused to read a file. -/
  | system (cause : SystemFault)
  /-- A staged file could not be put in the place of its target. -/
  | install (target : String) (cause : SystemFault)
  /-- No temporary file could be made beside a target. The file would have had a
  random name, which is no part of the fault: the wording is free here, and names the
  target in its place. -/
  | staging (target : String) (cause : SystemFault)
  /-- A file that has to be text is not UTF-8. -/
  | notText
  | described (text : String)
deriving DecidableEq, Repr

/-- A failure to split a file into records. -/
inductive DelimitedFault where
  | system (cause : SystemFault)
  /-- A field is not UTF-8. The record is counted from zero, `line` and `byte`
  are where its reading began, and `validUpTo` is the length of the valid prefix
  of the field. -/
  | notText (record line field byte validUpTo : Nat)
  | described (text : String)
deriving DecidableEq, Repr

/-- Two columns of one table would have the same name. -/
inductive ClashReason where
  | rateOfQuantity (quantity : String)
  | repeatedTitle (title : String)
  | quantityOfScheme (quantity title : String)
  | described (text : String)
deriving DecidableEq, Repr

/-- Settings or arguments with which no run is possible. -/
inductive SettingsFault where
  | wideDelimiter (delimiter : Char)
  | emptyPalette
  | noQuantities
  | noSchemes
  | oddInputs (count : Nat)
  | emptyHeader (path : String)
  | undeclared (path : String) (missing schema : List String)
  | described (text : String)
deriving DecidableEq, Repr

/-- The cause of a failed run. -/
inductive Fault where
  | sourceNotFound (path : String)
  | malformedRow (path : String) (row expected found : Nat)
  | invalidMeasurement (column value : String) (location : Location)
  | degenerateRefinement (axis : String) (h : Binary64) (location : Location)
  | duplicateColumn (column : String) (reason : ClashReason)
  | incompleteRecord (column context : String)
  | emptyScheme (title : String)
  | settings (cause : SettingsFault)
  /-- The configuration file is malformed, or does not hold a configuration. -/
  | configuration (problem : String)
  | io (cause : IoFault)
  | delimited (cause : DelimitedFault)
  /-- A figure has no form in the language that describes it. -/
  | serialization (problem : String)
deriving DecidableEq, Repr

/-! ### Wording -/

def SystemFault.message : SystemFault → String
  | .noEntry => "No such file or directory (os error 2)"
  | .notDirectory => "Not a directory (os error 20)"
  | .isDirectory => "Is a directory (os error 21)"
  | .busy => "Device or resource busy (os error 16)"
  | .invalidArgument => "Invalid argument (os error 22)"
  | .nameTooLong => "File name too long (os error 36)"
  | .endedName => "file name contained an unexpected NUL byte"

def IoFault.message : IoFault → String
  | .system cause => cause.message
  | .install target cause => s!"{target}: {cause.message}"
  | .staging target cause => s!"{cause.message} beside {target}"
  | .notText => "stream did not contain valid UTF-8"
  | .described text => text

def DelimitedFault.message : DelimitedFault → String
  | .system cause => cause.message
  | .notText record line field byte validUpTo =>
    s!"CSV parse error: record {record} (line {line}, field: {field}, byte: {byte}): " ++
      s!"invalid utf-8: invalid UTF-8 in field {field} near byte index {validUpTo}"
  | .described text => text

def ClashReason.message : ClashReason → String
  | .rateOfQuantity quantity => s!"rate of `{quantity}` clashes with a source column"
  | .repeatedTitle title => s!"scheme title `{title}` is used twice"
  | .quantityOfScheme quantity title =>
    s!"quantity `{quantity}` of scheme `{title}` collides with another column"
  | .described text => text

def SettingsFault.message : SettingsFault → String
  | .wideDelimiter delimiter => s!"delimiter `{delimiter}` is not a single-byte character"
  | .emptyPalette => "palette needs at least one color and one mark"
  | .noQuantities => "no quantities selected for the merge"
  | .noSchemes => "no schemes to merge"
  | .oddInputs count => s!"expected as many titles as files, got {count} arguments"
  | .emptyHeader path => s!"{path}: file is empty, no header to read"
  | .undeclared path missing schema =>
    let lacking := ", ".intercalate missing
    let declared := ", ".intercalate schema
    s!"{path}: column(s) {lacking} not in the declared schema [{declared}]"
  | .described text => text

namespace Fault

/-- The class that a cause is reported under. -/
def kind : Fault → String
  | sourceNotFound .. => "SourceNotFoundError"
  | malformedRow .. => "MalformedRowError"
  | invalidMeasurement .. => "InvalidMeasurementError"
  | degenerateRefinement .. => "DegenerateRefinementError"
  | duplicateColumn .. => "DuplicateColumnError"
  | incompleteRecord .. => "IncompleteRecordError"
  | emptyScheme .. => "EmptySchemeError"
  | settings .. => "ConfigError"
  | configuration .. => "ConfigError"
  | io .. => "IoError"
  | delimited .. => "CsvError"
  | serialization .. => "SerializationError"

def message : Fault → String
  | sourceNotFound path => s!"{path}: no such file"
  | malformedRow path row expected found =>
    s!"{path}: row {row} has {found} fields, expected {expected}"
  | invalidMeasurement column value location =>
    s!"{location.text}: column `{column}` holds `{value}`, expected a finite positive number"
  | degenerateRefinement axis h location =>
    s!"{location.text}: refinement `{axis}` = {h.plainText} repeats the previous level"
  | duplicateColumn column reason => s!"column `{column}` is produced twice ({reason.message})"
  | incompleteRecord column context => s!"{context}: record is missing column `{column}`"
  | emptyScheme title => s!"scheme `{title}` has no rows"
  | settings cause => cause.message
  | configuration problem => s!"config file: {problem}"
  | io cause => s!"I/O error: {cause.message}"
  | delimited cause => s!"CSV error: {cause.message}"
  | serialization problem => s!"could not serialize plot document: {problem}"

/-- The line shown for a failed run. -/
def report (f : Fault) : String :=
  s!"error: {f.kind}: {Text.oneLine f.message}"

/-- Whether a fault is about the value of a measurement, the only sort that a
lenient run passes over. -/
def isInvalidMeasurement : Fault → Bool
  | invalidMeasurement .. => true
  | _ => false

end Fault

end RefinementTables
