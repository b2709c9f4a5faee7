import Synopsis.Files.Path
import Synopsis.Text.Lines
import Synopsis.Text.Utf8

/-!
# Files and folders

A tree of named files and folders, what a path leads to in it, and what goes wrong on the way: a name
that is not there, a file where a folder is needed, a folder where a file is needed, a path that is no
path at all. What lies outside a tree is an empty folder.
-/

namespace Synopsis

open Text

/-- A file with its bytes, or a folder with its named entries. -/
inductive Node where
  | file (bytes : List UInt8)
  | folder (entries : List (Text × Node))

/-- Why a path does not lead to a file. -/
inductive PathFault where
  | missing
  | notFolder
  | isFolder
  /-- A name or a path with more bytes than it may have. -/
  | tooLong
  /-- A path with a null character in it. -/
  | nullByte
deriving DecidableEq, Repr

/-- The wording of a fault at a path. -/
def PathFault.message (f : PathFault) (path : Path) : Text :=
  match f with
  | .missing => "[Errno 2] No such file or directory: ".toList ++ quoted path.text
  | .notFolder => "[Errno 20] Not a directory: ".toList ++ quoted path.text
  | .isFolder => "[Errno 21] Is a directory: ".toList ++ quoted path.text
  | .tooLong => "[Errno 36] File name too long: ".toList ++ quoted path.text
  | .nullByte => "embedded null byte".toList

/-- How many bytes a text takes. -/
def byteCount : Text → Nat
  | [] => 0
  | c :: cs => c.utf8Size + byteCount cs

/-- The most bytes that a name may have. -/
def maxNameBytes : Nat := 255

/-- The most bytes that a path may have. -/
def maxPathBytes : Nat := 4095

/-- A fault that a path has wherever it leads. -/
def Path.fault? (path : Path) : Option PathFault :=
  if path.text.contains '\x00' then some .nullByte
  else if maxPathBytes < byteCount path.text then some .tooLong
  else none

namespace Node

/-- A folder without entries. -/
def empty : Node := .folder []

/-- The folders on the way to a node, nearest first, each with the name that was taken in it; nothing
    for a node outside the tree. -/
abbrev Trail := Option (List (Text × Node))

/-- Follows names from a node at the end of a trail. -/
def follow : Trail → Node → List Text → Except PathFault (Trail × Node)
  | above, here, [] => .ok (above, here)
  | above, .folder entries, p :: ps =>
    if p = ['.', '.'] then
      match above with
      | some ((_, parent) :: above) => follow (some above) parent ps
      | _ => follow none .empty ps
    else if maxNameBytes < byteCount p then .error .tooLong
    else match entries.lookup p with
      | some next => follow (above.map ((p, .folder entries) :: ·)) next ps
      | none => .error .missing
  | _, .file _, _ :: _ => .error .notFolder

/-- Follows the given names of a path: from the top of the tree, or, for one with a root, from
    outside. -/
def followPath (tree : Node) (path : Path) (names : List Text) : Except PathFault (Trail × Node) :=
  match path.fault? with
  | some fault => .error fault
  | none => if path.root.isEmpty then follow (some []) tree names else follow none .empty names

/-- What a path leads to. -/
def find (tree : Node) (path : Path) : Except PathFault Node :=
  (tree.followPath path path.parts).map Prod.snd

/-- The names from the top to the file that writing to a path would create or replace; nothing for a
    file outside the tree. -/
def target (tree : Node) (path : Path) : Except PathFault (Option (List Text)) := do
  let (above, parent) ← tree.followPath path path.parts.dropLast
  match path.parts.getLast?, parent with
  | none, _ => .error .isFolder
  | some _, .file _ => .error .notFolder
  | some name, .folder entries =>
    if name = ['.', '.'] then .error .isFolder
    else if maxNameBytes < byteCount name then .error .tooLong
    else match entries.lookup name with
      | some (.folder _) => .error .isFolder
      | _ => .ok (above.map fun above => (above.map Prod.fst).reverse ++ [name])

end Node

/-! ## Building trees -/

/-- Puts a node under a name, in place of one that is there. -/
def putEntry (entries : List (Text × Node)) (name : Text) (node : Node) : List (Text × Node) :=
  if entries.any (·.1 == name) then
    entries.map fun e => if e.1 = name then (name, node) else e
  else entries ++ [(name, node)]

/-- Puts a node at the end of a row of names, making the folders on the way. -/
def Node.put (tree : Node) (node : Node) : List Text → Node
  | [] => node
  | p :: ps =>
    let entries := match tree with
      | .folder entries => entries
      | .file _ => []
    .folder (putEntry entries p (Node.put ((entries.lookup p).getD .empty) node ps))

/-! ## Reading files -/

/-- Why a file has no text. -/
inductive ReadFault where
  | path (fault : PathFault)
  | decode (fault : DecodeFault)
deriving DecidableEq, Repr

/-- The wording of a fault when reading a path. -/
def ReadFault.message (f : ReadFault) (path : Path) : Text :=
  match f with
  | .path fault => fault.message path
  | .decode fault => fault.message

/-- The text of a file's bytes, with unified newlines. -/
def textOfBytes (bytes : List UInt8) : Except DecodeFault Text := (decode bytes).map unifyNewlines

/-- The text of a node. -/
def Node.read : Node → Except ReadFault Text
  | .file bytes => (textOfBytes bytes).mapError .decode
  | .folder _ => .error (.path .isFolder)

/-- The text of the file at a path. -/
def Node.readAt (tree : Node) (path : Path) : Except ReadFault Text := do
  let node ← (tree.find path).mapError .path
  node.read

end Synopsis
