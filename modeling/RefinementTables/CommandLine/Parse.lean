import RefinementTables.CommandLine.Options

/-!
Reading a command line.

Arguments are read from left to right, first those before the command's name and
then those after it, each level with its own options. What an argument means may
depend on the next one, so one thing is kept pending: an option that waits for
its value or has just got it, or a run of positional arguments. It takes effect
when the next thing begins, and only then is it found to be wrong; an unknown
argument is found at once.
-/

namespace RefinementTables.CommandLine

/-- What has been read and not yet taken effect. -/
inductive Pending where
  | option (change : String → Change) (value : Option String)
  | positionals (values : List String)

/-- The reading of one level between two arguments; `literal` is whether a `--`
has ended the options. -/
structure Reading where
  draft : Draft
  pending : Option Pending
  literal : Bool

namespace Reading

def start : Reading := ⟨.empty, none, false⟩

/-- Whether an option waits for its value. -/
def isWaiting (r : Reading) : Bool :=
  match r.pending with
  | some (.option _ none) => true
  | _ => false

/-- The values of positional arguments in a draft. -/
def addPositionals (kind : Positionals) (values : List String) : Change := fun d =>
  match kind with
  | .none => .error .unknownArgument
  | .paths _ => do
    let paths ← values.mapM path
    pure { d with positionals := d.positionals ++ paths }
  | .texts least =>
    if values.length < least then .error .tooFewValues
    else .ok { d with positionals := d.positionals ++ values }

/-- Lets what is pending take effect. -/
def settle (level : Level) (r : Reading) : Except Misuse Reading :=
  match r.pending with
  | none => .ok r
  | some (.option _ none) => .error .missingValue
  | some (.option change (some value)) => do
    let draft ← change value r.draft
    pure { r with draft, pending := none }
  | some (.positionals values) => do
    let draft ← addPositionals level.positionals values r.draft
    pure { r with draft, pending := none }

/-- Reads a flag. -/
def flag (level : Level) (r : Reading) (change : Change) : Except Misuse Reading := do
  let r ← r.settle level
  let draft ← change r.draft
  pure { r with draft }

/-- Reads an option with its value, or one whose value is the next argument. -/
def option (level : Level) (r : Reading) (change : String → Change) (value : Option String) :
    Except Misuse Reading := do
  let r ← r.settle level
  match value with
  | none => pure { r with pending := some (.option change none) }
  | some value =>
    let draft ← change value r.draft
    pure { r with draft }

/-- Reads an argument `--name` or `--name=value`. -/
def long (level : Level) (r : Reading) (body : List Char) : Except Misuse Reading :=
  let name := String.ofList (body.takeWhile (· ≠ '='))
  let value := match body.dropWhile (· ≠ '=') with
    | [] => none
    | _ :: cs => some (String.ofList cs)
  match level.options.find? fun s => name ∈ s.long with
  | none => .error .unknownArgument
  | some spec =>
    match spec.action, value with
    | .flag _, some _ => .error .surplusValue
    | .flag change, none => r.flag level change
    | .value change, value => r.option level change value

/-- Reads a cluster of short options. The first one with a value takes the rest
of the cluster, less an equals sign, or else the next argument. -/
def short (level : Level) (r : Reading) : List Char → Except Misuse Reading
  | [] => .ok r
  | c :: cs =>
    match level.options.find? fun s => s.short = some c with
    | none => .error .unknownArgument
    | some spec =>
      match spec.action with
      | .flag change => do
        let r ← r.flag level change
        r.short level cs
      | .value change =>
        r.option level change
          (match cs with
          | [] => none
          | '=' :: value => some (String.ofList value)
          | value => some (String.ofList value))

/-- Whether another positional argument has a place. -/
def hasPlace (level : Level) (r : Reading) : Bool :=
  match level.positionals with
  | .none => false
  | .paths count =>
    let waiting := match r.pending with
      | some (.positionals values) => values.length
      | _ => 0
    r.draft.positionals.length + waiting < count
  | .texts _ => true

/-- Reads a positional argument. Texts in a row are taken together; a path takes
effect before the next one is read. -/
def positional (level : Level) (r : Reading) (argument : String) : Except Misuse Reading :=
  if r.hasPlace level then
    match level.positionals, r.pending with
    | .texts _, some (.positionals values) =>
      .ok { r with pending := some (.positionals (values ++ [argument])) }
    | _, _ => do
      let r ← r.settle level
      pure { r with pending := some (.positionals [argument]) }
  else .error .unknownArgument

/-- Reads one argument. -/
def argument (level : Level) (r : Reading) (argument : String) : Except Misuse Reading :=
  if r.literal then r.positional level argument
  else match argument.toList with
    | ['-', '-'] => .ok { r with literal := true }
    | '-' :: '-' :: body => r.long level body
    | '-' :: c :: body => r.short level (c :: body)
    | _ =>
      match r.pending with
      | some (.option change none) =>
        .ok { r with pending := some (.option change (some argument)) }
      | _ => r.positional level argument

end Reading

/-! ### Levels -/

/-- The draft of a command's level. -/
def readLevel (level : Level) (arguments : List String) : Except Misuse Draft := do
  let r ← arguments.foldlM (Reading.argument level) .start
  let r ← r.settle level
  pure r.draft

/-- The misuse that asking for help on a command is. -/
def helpOn : List String → Misuse
  | [] => .helpWanted
  | [name] =>
    if (CommandName.ofText? name).isSome || name = "help" then .helpWanted else .unknownCommand
  | _ => .unknownCommand

/-- What a command line asks for, given what was read before its command. What
the command's level says of an option goes before what was said before it. -/
def invocation (root sub : Draft) (command : Command) : Invocation where
  configuration := sub.configuration.or root.configuration
  verbosity := (sub.verbosity.or root.verbosity).getD 0
  quiet := sub.quiet || root.quiet
  command := command

/-- Reads the arguments before the command and then the command. -/
def readRoot (r : Reading) : List String → Except Misuse Invocation
  | [] => do
    let r ← r.settle rootLevel
    let given := r.draft.configuration.isSome || r.draft.verbosity.isSome || r.draft.quiet
    throw (if given then .missingCommand else .helpOnNothing)
  | argument :: rest =>
    if !r.literal && !r.isWaiting && argument = "help" then .error (helpOn rest)
    else match CommandName.ofText? argument with
      | some name =>
        if r.literal then .error .unknownArgument
        else if r.isWaiting then do
          let r ← r.argument rootLevel argument
          readRoot r rest
        else do
          let sub ← readLevel name.level rest
          let command ← name.command sub
          let r ← r.settle rootLevel
          pure (invocation r.draft sub command)
      | none => do
        if r.literal || (!r.isWaiting && (argument = "-" || !argument.startsWith "-")) then
          throw (if r.literal && argument = "help" then .unknownArgument else .unknownCommand)
        let r ← r.argument rootLevel argument
        readRoot r rest

/-- Reads a command line, without the program's name. -/
def parse (arguments : List String) : Except Misuse Invocation :=
  readRoot .start arguments

end RefinementTables.CommandLine
