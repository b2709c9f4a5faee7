import Synopsis.Files.Ignore
import Synopsis.Files.Tree
import Synopsis.Log
import Synopsis.Text.Case

/-!
# Walking a folder

The source files below a folder, in an order that does not depend on how entries are listed: the files
of a folder by name, then its folders by name. Hidden and skipped folders are passed over in silence;
what the ignore rules match is passed over with a note.
-/

namespace Synopsis

open Text

/-- Which files a walk looks for and what it passes over. -/
structure WalkRules where
  suffixes : List Text
  ignoreDirs : List Text := []
  ignored : Text → Bool := fun _ => false

/-- What a walk meets, by the names below its start. -/
inductive WalkEvent where
  | found (names : List Text)
  | ignoredFile (names : List Text)
  | ignoredFolder (names : List Text)
deriving DecidableEq, Repr

namespace WalkRules

/-- Whether the suffix of a file name is wanted, whatever its case. -/
def wants (w : WalkRules) (name : Text) : Bool :=
  (w.suffixes.map lower).contains (lower (suffixOfName name))

/-- Whether a folder is passed over for its name. -/
def skips (w : WalkRules) (name : Text) : Bool :=
  name.head? == some '.' || w.ignoreDirs.contains name

/-- Whether the rules ignore a folder. -/
def ignoresFolder (w : WalkRules) (names : List Text) : Bool :=
  w.ignored (join "/" names ++ ['/'])

/-- What a walk notes of a file. -/
def fileEvent? (w : WalkRules) (above : List Text) (name : Text) : Option WalkEvent :=
  let names := above ++ [name]
  if !w.wants name then none
  else if w.ignored (join "/" names) then some (.ignoredFile names)
  else some (.found names)

end WalkRules

/-- Entries in the order of their names. -/
def byName {α : Type} (entries : List (Text × α)) : List (Text × α) :=
  entries.mergeSort fun a b => Text.le a.1 b.1

/-- Puts together what was met in a folder: its ignored folders, its files, then what was met in the
    folders that are kept. An entry with nothing is a file. -/
def folderEvents (w : WalkRules) (above : List Text)
    (entries : List (Text × Option (List WalkEvent))) : List WalkEvent :=
  let sorted := byName entries
  let folders := (sorted.filterMap fun e => e.2.map (e.1, ·)).filter fun f => !w.skips f.1
  let files := (sorted.filter fun e => e.2.isNone).map Prod.fst
  let (out, kept) := folders.partition fun f => w.ignoresFolder (above ++ [f.1])
  out.map (fun f => .ignoredFolder (above ++ [f.1])) ++
    files.filterMap (w.fileEvent? above) ++ kept.flatMap Prod.snd

mutual

/-- What a walk meets below a node, nothing for a file. -/
def Node.events? (w : WalkRules) (above : List Text) : Node → Option (List WalkEvent)
  | .file _ => none
  | .folder entries => some (folderEvents w above (entryEvents w above entries))

/-- What a walk meets below each entry of a folder. -/
def entryEvents (w : WalkRules) (above : List Text) :
    List (Text × Node) → List (Text × Option (List WalkEvent))
  | [] => []
  | (name, node) :: rest => (name, node.events? w (above ++ [name])) :: entryEvents w above rest

end

/-- What a walk from a node meets; a file is not walked. -/
def Node.walk (w : WalkRules) (start : Node) : List WalkEvent := (start.events? w []).getD []

namespace Walk

/-- The source of the notes of a walk. -/
def source : Text := "contextit.walker".toList

/-- The path of a found file. -/
def foundPath? (root : Path) : WalkEvent → Option Path
  | .found names => some (root.append names)
  | _ => none

/-- The note about something ignored: a folder by its place below the start, a file by its path. -/
def note? (root : Path) : WalkEvent → Option Log.Record
  | .found _ => none
  | .ignoredFile names => some
      ⟨Log.debug, source, "ignored file ".toList ++ (root.append names).text⟩
  | .ignoredFolder names => some
      ⟨Log.debug, source, "ignored directory ".toList ++ join "/" names ++ ['/']⟩

/-- The files that list ignore patterns, in the order in which they count. -/
def ignoreFiles : List Text := [".gitignore".toList, ".contextignore".toList]

/-- Why there is no walk. -/
inductive Fault where
  | path (fault : PathFault) (path : Path)
  | pattern (fault : Ignore.PatternFault)
deriving DecidableEq, Repr

/-- The wording of a fault. -/
def Fault.message : Fault → Text
  | .path fault place => fault.message place
  | .pattern fault => fault.message

/-- The node at the start of a walk. A path that leads nowhere is as good as a file, on which there is
    nothing to walk. -/
def start (find : Path → Except PathFault Node) (root : Path) : Except Fault Node :=
  match find root with
  | .ok node => .ok node
  | .error .nullByte => .error (.path .nullByte root)
  | .error _ => .ok (.file [])

/-- The lines of an ignore file, if there is one, and a warning when it cannot be read. -/
def ignoreLines (find : Path → Except PathFault Node) (path : Path) :
    Except Fault (Option (List Text) × List Log.Record) :=
  match find path with
  | .ok (.file bytes) => match textOfBytes bytes with
    | .ok t => .ok (some (lines t), [])
    | .error fault => .ok (none,
        [⟨Log.warning, source, "cannot read ".toList ++ path.text ++ ": ".toList ++ fault.message⟩])
  | .error .tooLong => .error (.path .tooLong path)
  | _ => .ok (none, [])

/-- The rules of the ignore files right below a path, if one can be read, and warnings about the
    others. -/
def loadRules (find : Path → Except PathFault Node) (root : Path) :
    Except Fault (Option (List Ignore.Rule) × List Log.Record) := do
  let read ← ignoreFiles.mapM fun name => ignoreLines find (root.append [name])
  let found := read.filterMap Prod.fst
  let warnings := read.flatMap Prod.snd
  if found.isEmpty then return (none, warnings)
  else return (some (← (Ignore.rulesOf found.flatten).mapError .pattern), warnings)

/-- A predicate for optional rules: without any, nothing is ignored. -/
def ignoredBy (rules : Option (List Ignore.Rule)) (path : Text) : Bool :=
  rules.any (Ignore.ignored · path)

end Walk

end Synopsis
