import Synopsis.Text.Blank

/-!
# Globs

A glob is a row of steps that walk over a path from its start; each step lists all places it can lead
to, so a match is a walk that ends anywhere. A run of folders never crosses a line feed, and a line
feed at the very end of a path does not count.

A glob also has a written form, a regular expression. Nothing is matched by it, but a fault in a
bracket expression is told by its position there.
-/

namespace Synopsis.Glob

open Text

/-! ## Steps -/

/-- A member of a bracket expression: a character, or all characters from one to another. -/
inductive Member where
  | char (c : Char)
  | range (first last : Char)
deriving DecidableEq, Repr

/-- One step over a path. -/
inductive Step where
  /-- Exactly this character. -/
  | char (c : Char)
  /-- One character other than a slash. -/
  | any
  /-- Any run of characters other than slashes. -/
  | run
  /-- A run of at least one character other than slashes. -/
  | name
  /-- One character among the members, or, negated, one that is none of them. -/
  | set (negated : Bool) (members : List Member)
  /-- Nothing, or anything up to and with a slash. -/
  | leadingFolders
  /-- Nothing, or a slash and anything after it. -/
  | innerFolders
  /-- A slash or the end of the path. -/
  | boundary
deriving DecidableEq, Repr

/-- Whether a character is what a member stands for. -/
def Member.holds (c : Char) : Member → Bool
  | .char d => d == c
  | .range first last => first.toNat ≤ c.toNat && c.toNat ≤ last.toNat

/-! ## Walking -/

/-- All that can be left of a path after a run of characters other than slashes. -/
def restsOfRun : Text → List Text
  | [] => [[]]
  | c :: cs => (c :: cs) :: if c = '/' then [] else restsOfRun cs

/-- All that can be left of a text after at least one character and no line feed. -/
def restsOfLine : Text → List Text
  | [] => []
  | c :: cs => if c = '\n' then [] else cs :: restsOfLine cs

/-- All that can be left of a path after at least one character, none of them a line feed, and then a
    slash. -/
def restsOfFolders (t : Text) : List Text := (restsOfLine t).filterMap (after? ['/'])

/-- All that can be left of a path after a step. -/
def Step.rests : Step → Text → List Text
  | .char c, t => (after? [c] t).toList
  | .any, c :: cs => if c = '/' then [] else [cs]
  | .any, [] => []
  | .run, t => restsOfRun t
  | .name, t => (restsOfRun t).drop 1
  | .set negated members, c :: cs => if members.any (·.holds c) == negated then [] else [cs]
  | .set _ _, [] => []
  | .leadingFolders, t => t :: restsOfFolders t
  | .innerFolders, t => t :: match t with
    | '/' :: cs => restsOfLine cs
    | _ => []
  | .boundary, t => match t with
    | '/' :: cs => [cs]
    | t => if t = [] || t = ['\n'] then [t] else []

/-- Whether the steps lead somewhere from the start of a path. -/
def walks (steps : List Step) (path : Text) : Bool :=
  !(steps.foldl (fun rests s => (rests.flatMap s.rests).eraseDups) [path]).isEmpty

/-! ## Reading -/

/-- Why a segment is no glob. -/
inductive Flaw where
  /-- A bracket that nothing closes. -/
  | openBracket
  /-- A backslash with nothing after it. -/
  | openEscape
deriving DecidableEq, Repr

/-- The members of a bracket expression. A hyphen between two characters spans a range. -/
def members : Text → List Member
  | a :: '-' :: b :: cs => .range a b :: members cs
  | a :: cs => .char a :: members cs
  | [] => []

/-- A bracket expression whose opening bracket was just read: its step and what follows it. Right
    after the opening, a closing bracket is a member. -/
def bracket? (t : Text) : Option (Step × Text) :=
  let (negated, t) := match t with
    | '!' :: cs => (true, cs)
    | '^' :: cs => (true, cs)
    | cs => (false, cs)
  let (lead, t) := match t with
    | ']' :: cs => ([']'], cs)
    | cs => ([], cs)
  (cutAt? ']' t).map fun (body, rest) => (.set negated (members (lead ++ body)), rest)

/-- The steps of a segment of which the first `skip` characters are already read. -/
def stepsFrom : (skip : Nat) → Text → Except Flaw (List Step)
  | _, [] => .ok []
  | n + 1, _ :: cs => stepsFrom n cs
  | 0, c :: cs => match c with
    | '\\' => match cs with
      | [] => .error .openEscape
      | d :: ds => (stepsFrom 0 ds).map (.char d :: ·)
    | '*' => (stepsFrom 0 cs).map (.run :: ·)
    | '?' => (stepsFrom 0 cs).map (.any :: ·)
    | '[' => match bracket? cs with
      | some (s, rest) => (stepsFrom (cs.length - rest.length) cs).map (s :: ·)
      | none => .error .openBracket
    | c => (stepsFrom 0 cs).map (.char c :: ·)

/-- The steps of a segment; a lone star needs at least one character. -/
def steps (segment : Text) : Except Flaw (List Step) :=
  if segment = ['*'] then .ok [.name] else stepsFrom 0 segment

/-! ## The written form -/

/-- A character inside a bracket expression. -/
def writeMemberChar (c : Char) : Text := if c = '\\' then ['\\', '\\'] else [c]

/-- A member as it stands in a bracket expression. -/
def Member.expression : Member → Text
  | .char c => writeMemberChar c
  | .range first last => writeMemberChar first ++ '-' :: writeMemberChar last

/-- The characters that mean something in a regular expression. -/
def specialChars : Text := "()[]\x7b\x7d?*+-|^$\\.&~# \t\n\r\x0b\x0c".toList

/-- A step as a regular expression. -/
def Step.expression : Step → Text
  | .char c => if specialChars.contains c then ['\\', c] else [c]
  | .any => "[^/]".toList
  | .run => "[^/]*".toList
  | .name => "[^/]+".toList
  | .set negated members =>
    '[' :: (if negated then ['^'] else []) ++ members.flatMap Member.expression ++ [']']
  | .leadingFolders => "(?:.+/)?".toList
  | .innerFolders => "(?:/.+)?".toList
  | .boundary => "(?:/|$)".toList

/-- A range whose ends are in the wrong order, and where it stands in the written form. -/
structure BadRange where
  first : Char
  last : Char
  position : Nat
deriving DecidableEq, Repr

/-- The wording of a bad range. -/
def BadRange.message (b : BadRange) : Text :=
  "bad character range ".toList ++ (Member.range b.first b.last).expression ++
    " at position ".toList ++ Nat.toDigits 10 b.position

/-- The first bad range among members of which the first stands at `position`. -/
def badMember? : (position : Nat) → List Member → Option BadRange
  | _, [] => none
  | k, .char c :: ms => badMember? (k + (Member.char c).expression.length) ms
  | k, .range first last :: ms =>
    if last.toNat < first.toNat then some ⟨first, last, k⟩
    else badMember? (k + (Member.range first last).expression.length) ms

/-- The first bad range of a step at `position`. -/
def Step.badRange? (position : Nat) : Step → Option BadRange
  | .set negated members => badMember? (position + if negated then 2 else 1) members
  | _ => none

/-- The first bad range of steps of which the first stands at `position`. -/
def badRangeFrom : (position : Nat) → List Step → Option BadRange
  | _, [] => none
  | k, s :: ss => (s.badRange? k).or (badRangeFrom (k + s.expression.length) ss)

/-- The first bad range of a glob. A sign for the start of the path stands before its first step. -/
def badRange? (steps : List Step) : Option BadRange := badRangeFrom 1 steps

end Synopsis.Glob
