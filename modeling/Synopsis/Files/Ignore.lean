import Synopsis.Files.Glob
import Synopsis.Text.Quote

/-!
# Ignore patterns

The patterns of an ignore file and which paths they match. Of all patterns that match a path the last
one decides, and a pattern that starts with an exclamation mark takes the path back in. A pattern with
a bracket that nothing closes is no rule; one with nothing to match, with a backslash at the end of a
segment or with a range in the wrong order is a fault of the whole file.
-/

namespace Synopsis.Ignore

open Text Glob

/-! ## Segments -/

/-- The segment that stands for any number of folders. -/
def anyFolders : Text := ['*', '*']

/-- Drops a double star that follows another one. -/
def mergeFolders : List Text → List Text
  | a :: b :: rest =>
    if a = anyFolders && b = anyFolders then mergeFolders (b :: rest)
    else a :: mergeFolders (b :: rest)
  | segments => segments

/-- Brings the segments of a pattern into one form: a leading slash only anchors, a lone segment
    matches at any depth, and a trailing slash stands for everything inside. -/
def normalSegments (segments : List Text) : List Text :=
  let anchored := match segments with
    | [] :: rest => rest
    | [s] => if s = anyFolders then [s] else [anyFolders, s]
    | [s, []] => if s = anyFolders then [s, []] else [anyFolders, s, []]
    | segments => segments
  let filled :=
    if anchored.getLast? = some [] then anchored.dropLast ++ [anyFolders] else anchored
  mergeFolders filled

/-- The steps for the segments after the first; each of them begins with a slash. -/
def laterSteps : List Text → Except Flaw (List Step)
  | [] => .ok [.boundary]
  | [s] =>
    if s = anyFolders then .ok [.char '/']
    else (steps s).map fun ss => .char '/' :: ss ++ [.boundary]
  | s :: rest => do
    let here ← if s = anyFolders then pure [.innerFolders] else (steps s).map (.char '/' :: ·)
    return here ++ (← laterSteps rest)

/-! ## Matchers -/

/-- What a pattern asks of a path. -/
inductive Matcher where
  /-- Any path with a character other than a line feed in it. -/
  | everything
  /-- Any path with a slash in it. -/
  | nested
  /-- A path over which the steps lead. -/
  | glob (steps : List Step)
deriving DecidableEq, Repr

/-- Whether a path is what the matcher asks for. -/
def Matcher.accepts : Matcher → Text → Bool
  | .everything, path => path.any (· ≠ '\n')
  | .nested, path => path.contains '/'
  | .glob steps, path => walks steps path

/-- The matcher of a pattern's normal segments, of which there is at least one; `inside` tells that the
    pattern ended in a slash. -/
def matcherOf (inside : Bool) (first : Text) (rest : List Text) : Except Flaw Matcher :=
  if first = anyFolders then match rest with
    | [] => .ok (if inside then .nested else .everything)
    | [['*']] => .ok .everything
    | [['*'], ['*', '*']] => .ok .nested
    | rest => (laterSteps rest).map fun ss => .glob (.leadingFolders :: ss.drop 1)
  else do
    let here ← steps first
    return .glob (here ++ (← laterSteps rest))

/-! ## Rules -/

/-- A line of an ignore file: what it matches, and whether it ignores or takes back in. -/
structure Rule where
  ignores : Bool
  matcher : Matcher
deriving DecidableEq, Repr

/-- What is wrong with a line. -/
inductive PatternFault where
  /-- A line with nothing to match or a backslash at the end of a segment. -/
  | invalid (line : Text)
  /-- A range whose ends are in the wrong order. -/
  | badRange (range : BadRange)
deriving DecidableEq, Repr

/-- The wording of a fault. -/
def PatternFault.message : PatternFault → Text
  | .invalid line => "Invalid git pattern: ".toList ++ quoted line
  | .badRange range => range.message

/-- A line without trailing blanks, unless the last of them is escaped. -/
def trimLine (line : Text) : Text :=
  if ['\\', ' '].isSuffixOf line then line else trimEnd line

/-- The rule with a matcher, unless a range in it is bad. -/
def Rule.checked (ignores : Bool) (matcher : Matcher) : Except PatternFault Rule :=
  match matcher with
  | .glob steps => match badRange? steps with
    | some range => .error (.badRange range)
    | none => .ok ⟨ignores, .glob steps⟩
  | matcher => .ok ⟨ignores, matcher⟩

/-- The rule of a line. Blank lines, comments, a lone slash and lines with an open bracket are no
    rules. -/
def ruleOf (line : Text) : Except PatternFault (Option Rule) :=
  let t := trimLine line
  if t.isEmpty || t.head? = some '#' || t = ['/'] then .ok none
  else
    let (ignores, t) := match t with
      | '!' :: cs => (false, cs)
      | cs => (true, cs)
    let segments := t.splitOn '/'
    match normalSegments segments with
    | [] => .error (.invalid line)
    | first :: rest => match matcherOf (segments.getLast? = some []) first rest with
      | .error .openBracket => .ok none
      | .error .openEscape => .error (.invalid line)
      | .ok matcher => (Rule.checked ignores matcher).map some

/-- The rules of a file's lines, or the first fault among them. -/
def rulesOf (lines : List Text) : Except PatternFault (List Rule) := do
  return (← lines.mapM ruleOf).filterMap id

/-- A path without a leading slash or dot and slash. -/
def relativePath (path : Text) : Text :=
  match path with
  | '/' :: cs => cs
  | '.' :: '/' :: cs => cs
  | cs => cs

/-- Whether the last rule that matches a path ignores it. -/
def ignored (rules : List Rule) (path : Text) : Bool :=
  let path := relativePath path
  ((rules.reverse.find? fun r => r.matcher.accepts path).map (·.ignores)).getD false

end Synopsis.Ignore
