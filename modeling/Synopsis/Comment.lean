import Synopsis.Text.Basic

/-!
# Comments

A comment style lists what opens a comment to the end of its line and what encloses one. Removal is
one pass from left to right; a marker inside a string literal counts as a comment all the same.
-/

namespace Synopsis

open Text

/-- A marker that makes the rest of its line a comment, unless its exception follows. -/
structure LineMarker where
  marker : Text
  exception : Option Text := none
deriving DecidableEq, Repr

/-- What opens and closes the comments of a language. -/
structure CommentStyle where
  blocks : List (Text × Text) := []
  lines : List LineMarker := []
deriving DecidableEq, Repr

namespace CommentStyle

/-- Two slashes to the end of the line, and blocks between a slash and a star. -/
def slashes : CommentStyle := ⟨[("/*".toList, "*/".toList)], [⟨"//".toList, none⟩]⟩

/-- A hash sign to the end of the line. -/
def hash : CommentStyle := ⟨[], [⟨"#".toList, none⟩]⟩

/-- Slashes, and hash signs that do not open an attribute. -/
def slashesAndHash : CommentStyle :=
  ⟨[("/*".toList, "*/".toList)], [⟨"//".toList, none⟩, ⟨"#".toList, some "[".toList⟩]⟩

/-- A style from its markers and from what, after a marker, makes it none; of several exceptions for
    one marker the last counts, and an empty one excludes nothing. -/
def ofMarkers (lines : List Text) (blocks : List (Text × Text)) (exceptions : List (Text × Text)) :
    CommentStyle :=
  ⟨blocks, lines.map fun m =>
    ⟨m, ((exceptions.reverse.find? (·.1 == m)).map Prod.snd).bind nonempty?⟩⟩

/-- What follows a block comment at the front of a text. -/
def afterBlock? (t : Text) (block : Text × Text) : Option Text := do
  let body ← after? block.1 t
  let (_, rest) ← cut? block.2 body
  return rest

/-- What follows a line comment at the front of a text: the end of its line. -/
def afterLine? (t : Text) (line : LineMarker) : Option Text := do
  let body ← after? line.marker t
  if line.exception.any fun e => (after? e body).isSome then none
  else some (body.dropWhile (· ≠ '\n'))

/-- What follows a comment at the front of a text; blocks are tried before lines. -/
def afterComment? (s : CommentStyle) (t : Text) : Option Text :=
  (s.blocks.findSome? (afterBlock? t)).or (s.lines.findSome? (afterLine? t))

/-- Removes comments from a text whose first `skip` characters belong to one. -/
def stripFrom (s : CommentStyle) : (skip : Nat) → Text → Text
  | _, [] => []
  | n + 1, _ :: cs => s.stripFrom n cs
  | 0, c :: cs => match s.afterComment? (c :: cs) with
    | some rest => s.stripFrom (cs.length - rest.length) cs
    | none => c :: s.stripFrom 0 cs

/-- The text without its comments. -/
def strip (s : CommentStyle) (t : Text) : Text := s.stripFrom 0 t

end CommentStyle

end Synopsis
