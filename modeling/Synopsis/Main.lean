import Synopsis.Cli.Run

/-!
# The program

Reads what the given paths lead to, makes the run, and writes what it leaves: a document on standard
output or in a file, notes on standard error.
-/

namespace Synopsis.Cli

/-- Reads a file, or a folder with all that is below it. -/
partial def load (path : String) : IO (Option Node) := do
  let place := (← IO.currentDir) / path
  if ← place.isDir then
    let mut entries : List (Text × Node) := []
    for entry in ← place.readDir do
      if let some node ← load (path ++ "/" ++ entry.fileName) then
        entries := (entry.fileName.toList, node) :: entries
    return some (.folder entries)
  else if ← place.pathExists then
    return some (.file (← IO.FS.readBinFile place).toList)
  else return none

/-- The paths that a command line names. -/
def givenPaths (argv : List Text) : List Path :=
  match parse argv with
  | .ok o => (o.given.filterMap id).map Path.ofText
  | .error _ => []

/-- What a path leads to among what was read: a given path, or one below it. -/
def findIn (loaded : List (Path × Node)) (path : Path) : Except PathFault Node :=
  let found := loaded.filterMap fun (root, node) =>
    if root.root = path.root && root.parts.isPrefixOf path.parts then
      (node.find ⟨[], path.parts.drop root.parts.length⟩).toOption
    else none
  match path.fault?, found with
  | some fault, _ => .error fault
  | none, node :: _ => .ok node
  | none, [] => .error (if path.parts.any (maxNameBytes < byteCount ·) then .tooLong else .missing)

/-- The fault behind an error of the file system, told by the number that it carries. -/
def faultOf : IO.Error → Option PathFault
  | .noFileOrDirectory .. => some .missing
  | .inappropriateType _ code _ => some (if code = 21 then .isFolder else .notFolder)
  | _ => none

end Synopsis.Cli

open Synopsis Synopsis.Cli in
/-- Runs the program on its command line. -/
def main (args : List String) : IO UInt32 := do
  let argv := args.map String.toList
  let setting := (← IO.getEnv "CONTEXTIT_LOG_LEVEL").map String.toList
  let mut loaded : List (Path × Node) := []
  for path in givenPaths argv do
    if let some node ← load (String.ofList path.text) then
      loaded := loaded ++ [(path, node)]
  match run (findIn loaded) setting argv with
  | .error fault =>
    IO.eprintln (String.ofList fault.message)
    return 1
  | .ok outcome =>
    IO.eprint (String.ofList outcome.stderr)
    match outcome.ending with
    | .exit code stdout =>
      IO.print (String.ofList stdout)
      return code.toUInt32
    | .write target document =>
      let path := Path.ofText target
      try
        IO.FS.writeFile ((← IO.currentDir) / String.ofList path.text) (String.ofList document)
        IO.eprint (String.ofList (stored target))
        return 0
      catch e =>
        let reason := match faultOf e with
          | some fault => fault.message path
          | none => (toString e).toList
        IO.eprint (String.ofList (notStored target reason))
        return 1
