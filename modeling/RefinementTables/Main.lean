import RefinementTables.Run

/-!
The program: a run on the file system.

The tree of the run holds what the paths of the command line lead to, and the
way to it. When the run has ended, the files that it has changed are written,
its events and its fault go to standard error, and its exit code is returned.
-/

namespace RefinementTables.Program

/-- The paths that an invocation may read or write. -/
def pathsOf (i : Invocation) : List String :=
  i.configuration.toList ++
    match i.command with
    | .merge inputs _ outPrefix plot _ _ =>
      inputs ++ [s!"{outPrefix}.csv", s!"{outPrefix}.{plot.extension}"]
    | .eoc input output _ => [input, output]
    | .scale input output _ _ _ => [input, output]

/-- A place as an absolute path. -/
def pathOf (place : Place) : String := "/" ++ "/".intercalate place

/-- What is at a place: nothing, a file, or what cannot be read as one. -/
def nodeAt (place : Place) : IO (Option Node) := do
  try
    let content ← IO.FS.readBinFile (pathOf place)
    pure (some (.file content.data.toList))
  catch e =>
    match e with
    | .noFileOrDirectory .. => pure none
    | _ => pure (some .directory)

/-- A tree with what is at a path and on the way to it. -/
def explore (t : FileTree) (path : String) : IO FileTree := do
  let p := Path.ofText path
  let mut tree := t
  let mut place := t.start p
  for name in p.parts do
    place := FileTree.below place name
    match ← nodeAt place with
    | some node => tree := tree.set (.named place) node
    | none => pure ()
  pure tree

/-- Writes the files that differ between two trees, each by way of a new file
that is moved into its place. -/
def writeChanges (before after : FileTree) : IO Unit := do
  for (address, node) in after.nodes do
    match address, node with
    | .named place, .file bytes =>
      if before.get? address ≠ some node then do
        let path := pathOf place
        let beside := path ++ ".part"
        IO.FS.writeBinFile beside ⟨bytes.toArray⟩
        IO.FS.rename beside path
    | _, _ => pure ()

/-- Shows the events of a run, unless only faults are asked for. -/
def showEvents (quiet : Bool) (events : List Event) : IO Unit := do
  for e in events do
    if !quiet || e.level = .error then do
      let details := String.join (e.details.map fun (key, value) => s!" {key}={value}")
      IO.eprintln s!"{e.level.name} {e.message}{details}"

def usage : String :=
  "usage: refinement-tables [-c FILE] [-v] [-q] merge FILES.. TITLES.. [options]\n" ++
  "       refinement-tables [-c FILE] [-v] [-q] eoc INPUT OUTPUT [options]\n" ++
  "       refinement-tables [-c FILE] [-v] [-q] scale INPUT OUTPUT --column NAME --factor X\n"

/-- Answers a command line that asks for no run. -/
def answerMisuse (m : Misuse) : IO UInt32 := do
  if m = .versionWanted then IO.println "refinement-tables 0.1.0"
  else if m.exitCode = 0 then IO.println usage
  else IO.eprintln s!"{m.name}\n{usage}"
  pure (UInt32.ofNat m.exitCode)

/-- Carries out an invocation on the file system. -/
def carryOut (i : Invocation) : IO UInt32 := do
  let here := ((Text.splitText '/' (← IO.currentDir).toString).filter fun name => name ≠ "")
  let before ← (pathsOf i).foldlM explore (FileTree.bare here)
  let outcome := i.run before
  showEvents i.quiet outcome.events
  match outcome.result with
  | .ok () =>
    writeChanges before outcome.tree
    pure 0
  | .error fault =>
    IO.eprintln fault.report
    pure 1

end RefinementTables.Program

def main (arguments : List String) : IO UInt32 :=
  match RefinementTables.CommandLine.parse arguments with
  | .error m => RefinementTables.Program.answerMisuse m
  | .ok i => RefinementTables.Program.carryOut i
