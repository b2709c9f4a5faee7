import Synopsis.Text.Basic

/-!
# Paths

A path is a root and the names below it. Empty names and single dots are dropped when a path is read,
double dots are kept, and exactly two leading slashes are a root of their own.
-/

namespace Synopsis

open Text

/-- A root, empty for a relative path, and the names below it. -/
structure Path where
  root : Text
  parts : List Text
deriving DecidableEq, Repr

namespace Path

/-- Reads a path. -/
def ofText (t : Text) : Path :=
  let slashes := (t.takeWhile (· == '/')).length
  { root := if slashes = 0 then [] else if slashes = 2 then ['/', '/'] else ['/']
    parts := (t.splitOn '/').filter fun p => p ≠ [] && p ≠ ['.'] }

/-- Writes a path; the empty relative path is a dot. -/
def text (p : Path) : Text :=
  let t := p.root ++ join "/" p.parts
  if t.isEmpty then ['.'] else t

/-- The path of something below a path. -/
def append (p : Path) (below : List Text) : Path := ⟨p.root, p.parts ++ below⟩

/-- The last name of a path, empty when it has none. -/
def name (p : Path) : Text := p.parts.getLast?.getD []

end Path

/-- The last dot of a file name and what follows it. A dot that starts or ends the name does not
    count. -/
def suffixOfName (name : Text) : Text :=
  let tail := afterLast '.' name
  if tail.isEmpty || name.length ≤ tail.length + 1 then [] else '.' :: tail

/-- The suffix of the last name of a path. -/
def Path.suffix (p : Path) : Text := suffixOfName p.name

end Synopsis
