import Synopsis.Cli.Help
import Synopsis.Files.Registry
import Synopsis.Files.Walk
import Synopsis.Report.Json

/-!
# A run of the program

From a command line and what its paths lead to, to a document and the notes on the way. Files are
collected first, then read in order; a file that cannot be read is left out with a warning, and one
without signatures is left out unless it was asked for. A path that cannot be asked for, an input
without path and a faulty ignore pattern end the run without a document.
-/

namespace Synopsis.Cli

open Text

/-! ## Collecting files -/

/-- The source of the program's own notes. -/
def source : Text := "contextit.cli".toList

/-- A warning about a path that is passed over, spelled as it was given. -/
def skipped (given : Text) (reason : String) : Log.Record :=
  ⟨Log.warning, source, "skipping ".toList ++ given ++ " (".toList ++ reason.toList ++ [')']⟩

/-- What ends a run without a document. -/
inductive Fault where
  | files (fault : Walk.Fault)
  /-- An input without path. -/
  | noPath
deriving DecidableEq, Repr

/-- The wording of a fault. -/
def Fault.message : Fault → Text
  | .files fault => fault.message
  | .noPath => "expected str, bytes or os.PathLike object, not list".toList

/-- The files that one given path stands for, with notes. -/
def collectPath {α : Type} [HasProfile α] (find : Path → Except PathFault Node)
    (registry : Registry α) (useIgnore : Bool) (given : Text) :
    Except Walk.Fault (List Path × List Log.Record) := do
  let path := Path.ofText given
  match find path with
  | .error .tooLong => throw (.path .tooLong path)
  | .error _ => return ([], [skipped given "not a file or directory"])
  | .ok (.file _) =>
    if (registry.forPath? path).isSome then return ([path], [])
    else return ([], [skipped given "unsupported file type"])
  | .ok (.folder entries) =>
    let (rules, warnings) ← if useIgnore then Walk.loadRules find path else pure (none, [])
    let events := (Node.folder entries).walk
      { suffixes := registry.suffixes, ignoreDirs := registry.ignoreDirs
        ignored := Walk.ignoredBy rules }
    return (events.filterMap (Walk.foundPath? path),
      warnings ++ events.filterMap (Walk.note? path))

/-- The files that the given paths stand for, in order, with notes; the first fault ends it. -/
def collect {α : Type} [HasProfile α] (find : Path → Except PathFault Node)
    (registry : Registry α) (useIgnore : Bool) (given : List (Option Text)) :
    Except Fault (List Path × List Log.Record) := do
  let found ← given.mapM fun
    | some path => (collectPath find registry useIgnore path).mapError .files
    | none => .error .noPath
  return (found.flatMap Prod.fst, found.flatMap Prod.snd)

/-! ## Reading files -/

/-- A note about a fragment without signature. -/
def rejectionNote (l : Language) (fragment : Text) (reason : Rejection) : Log.Record :=
  ⟨Log.debug, "contextit.languages.".toList ++ l.name,
    l.name ++ ": ".toList ++ reason.message ++ " in ".toList ++ quoted fragment⟩

/-- What one file gives, with notes. -/
def readFile (find : Path → Except PathFault Node) (registry : Registry Language) (o : Options)
    (path : Path) : Option FileReport × List Log.Record :=
  match registry.forPath? path with
  | none => (none, [])
  | some l => match (find path).mapError .path >>= Node.read with
    | .error fault =>
      (none, [⟨Log.warning, source,
        "cannot read ".toList ++ path.text ++ ": ".toList ++ fault.message path⟩])
    | .ok text =>
      let signatures := l.extract text
      let notes := (l.rejected text).map fun (fragment, reason) => rejectionNote l fragment reason
      let count : Log.Record := ⟨Log.info, source,
        path.text ++ ": ".toList ++ Nat.toDigits 10 signatures.length ++ " signatures".toList⟩
      let report : FileReport :=
        ⟨path.text, l.name, signatures, if o.functionsOnly then none else some text⟩
      (if signatures.isEmpty && !o.includeEmpty then none else some report, notes ++ [count])

/-! ## The run -/

/-- How a run ends, but for writing a file. -/
inductive Ending where
  /-- The program ends with this exit code and this on standard output. -/
  | exit (code : Nat) (stdout : Text)
  /-- The document goes to this file. -/
  | write (target document : Text)

/-- What a run writes to standard error, and how it ends. -/
structure Outcome where
  stderr : Text
  ending : Ending

/-- The document of the reports, in the format that the options ask for. -/
def document (o : Options) (reports : List FileReport) : Text :=
  if o.json then jsonDocument reports else markdownDocument reports

/-- A text that ends in a line end. -/
def withNewline (t : Text) : Text := if t.getLast? = some '\n' then t else t ++ ['\n']

/-- A run with the options of its command line. -/
def runWith (find : Path → Except PathFault Node) (setting : Option Text) (o : Options) :
    Except Fault Outcome := do
  let logger := ({} : Log.Logger).configure setting o.verbose
  let registry := Registry.standard
  let (files, notes) ← collect find registry (!o.noIgnore) o.given
  if files.isEmpty then
    return ⟨logger.write notes ++ "No supported source files found.\n".toList, .exit 1 []⟩
  else
    let read := files.map (readFile find registry o)
    let document := document o (read.filterMap Prod.fst)
    let stderr := logger.write (notes ++ read.flatMap Prod.snd)
    match present? o.output with
    | some target => return ⟨stderr, .write target document⟩
    | none => return ⟨stderr, .exit 0 (withNewline document)⟩

/-- A run of the program: what its paths lead to, the level set for its log, its command line. -/
def run (find : Path → Except PathFault Node) (setting : Option Text) (argv : List Text) :
    Except Fault Outcome :=
  match parse argv with
  | .error .help => .ok ⟨[], .exit 0 help⟩
  | .error (.usage e) => .ok ⟨e.report, .exit 2 []⟩
  | .ok o => runWith find setting o

/-- What is written when a document has been stored. -/
def stored (target : Text) : Text := "Documentation written to ".toList ++ target ++ ['\n']

/-- What is written when a document could not be stored. -/
def notStored (target reason : Text) : Text :=
  "Error: cannot write ".toList ++ target ++ ": ".toList ++ reason ++ ['\n']

/-! ## Runs inside a tree -/

/-- All that a run leaves behind. -/
structure Result where
  code : Nat
  stdout : Text
  stderr : Text
  written : List (Text × Text) := []

/-- The bytes of a text. -/
def encode (t : Text) : List UInt8 := (String.ofList t).toUTF8.toList

/-- What storing a document changes in a tree. A file that already held the document is not written
    anew, and what is outside the tree does not count. -/
def changes (tree : Node) (names : Option (List Text)) (document : Text) : List (Text × Text) :=
  match names with
  | none => []
  | some names => match tree.find ⟨[], names⟩ with
    | .ok (.file bytes) => if bytes = encode document then [] else [(join "/" names, document)]
    | _ => [(join "/" names, document)]

/-- A run whose files are all in one tree. -/
def runIn (tree : Node) (setting : Option Text) (argv : List Text) : Except Fault Result := do
  let outcome ← run tree.find setting argv
  match outcome.ending with
  | .exit code stdout => return ⟨code, stdout, outcome.stderr, []⟩
  | .write target document =>
    let path := Path.ofText target
    match tree.target path with
    | .error .nullByte => throw (.files (.path .nullByte path))
    | .error fault => return ⟨1, [], outcome.stderr ++ notStored target (fault.message path), []⟩
    | .ok names => return ⟨0, [], outcome.stderr ++ stored target, changes tree names document⟩

end Synopsis.Cli
