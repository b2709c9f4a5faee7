import Synopsis.Comment
import Synopsis.Fragment
import Synopsis.Nesting.Span
import Synopsis.Scan.Site

/-!
# Python: headers

`def` headers at the start of a line are functions. Every `class` is listed too, followed by the
methods of its body that take `self`. A class body runs from the colon of its header to the first
brace that closes a brace pair inside it, or to the end of the text.
-/

namespace Synopsis.Python

open Text

/-- A located `def`: its parameters on one line and the text after its arrow. -/
structure Header where
  isAsync : Bool
  name : Text
  parameters : Text
  returns : Option Text
deriving DecidableEq, Repr

/-- A header written on one line. -/
def Header.fragment (h : Header) : Text :=
  (if h.isAsync then "async ".toList else []) ++ "def ".toList ++ h.name ++
    '(' :: h.parameters ++ ')' :: (h.returns.map (" -> ".toList ++ ·)).getD []

/-- A located `class`: its bases on one line, if it has any. -/
structure ClassEntry where
  name : Text
  bases : Option Text
deriving DecidableEq, Repr

/-- A class entry written on one line. -/
def ClassEntry.fragment (c : ClassEntry) : Text :=
  "class ".toList ++ c.name ++ (c.bases.map fun b => '(' :: b ++ [')']).getD []

/-! ## Readers -/

/-- `async def name` up to its parameters: whether it is asynchronous, and its name. -/
def defHead? (t : Text) : Option ((Bool × Text) × Text) := do
  let (isAsync, t) := flagBy isIndent "async" t
  let t ← keywordBy? isIndent "def" t
  let (name, t) ← word? t
  return ((isAsync, name), t.dropWhile isIndent)

/-- A function head at the start of a line, with a parenthesis after it. -/
def functionAt? (p : Place) : Option ((Bool × Text) × Text) :=
  if p.isLineStart then (defHead? p.rest).filter (·.2.head? == some '(') else none

/-- Whether a parameter list opens with the word `self`. -/
def takesSelf (t : Text) : Bool :=
  ((char? '(' t).bind fun t => wholeWord? "self" (trimStart t)).isSome

/-- A method head on a line of its own, with `self` as its first parameter. -/
def methodAt? (p : Place) : Option ((Bool × Text) × Text) :=
  if p.isLineStart then (defHead? (p.rest.dropWhile isIndent)).filter fun m => takesSelf m.2
  else none

/-- A class head on a line of its own. -/
def classAt? (p : Place) : Option (Text × Text) :=
  if p.isLineStart then do
    let t ← keywordBy? isIndent "class" (p.rest.dropWhile isIndent)
    let (name, t) ← word? t
    return (name, t.dropWhile isIndent)
  else none

/-- The text after an arrow, up to a colon or the end of the line. Blanks alone count as an empty
    annotation when one of them is on the arrow's side of a line end. -/
def returnText? (t : Text) : Option Text := do
  let t ← after? "->".toList (trimStart t)
  let text := (trimStart t).takeWhile fun c => c ≠ ':' && c ≠ '\n'
  if !text.isEmpty then some (trim text)
  else if (t.takeWhile isBlank).any (· ≠ '\n') then some []
  else none

/-- The header whose head was just read, if its parameter list is closed. -/
def header? (head : Bool × Text) (t : Text) : Option Header := do
  let (params, rest) ← group? t
  return ⟨head.1, head.2, collapse params, returnText? rest⟩

/-! ## Classes -/

/-- A body that has `depth` braces open, up to the brace that closes the last one. -/
def bodyFrom : (depth : Int) → Text → Text
  | _, [] => []
  | d, c :: cs =>
    if c = '{' then c :: bodyFrom (d + 1) cs
    else if c = '}' then if d = 1 then [] else c :: bodyFrom (d - 1) cs
    else c :: bodyFrom d cs

/-- The body of the class whose header the text continues: all after its colon. -/
def classBody (t : Text) : Text :=
  match cutAt? ':' t with
  | some (_, body) => bodyFrom 0 body
  | none => []

/-- The entry of a class and the text after its bases. -/
def classEntry (name : Text) (t : Text) : ClassEntry × Text :=
  let (span, rest) := parens t
  let bases := unwrap span
  (⟨name, if span.getLast? = some ')' && !blank bases then some (collapse bases) else none⟩, rest)

/-! ## Sources -/

/-- The module-level functions of a text without comments. -/
def functions (t : Text) : List Header :=
  (sites functionAt? t).filterMap fun s => header? s.found s.rest

/-- The methods of a class body. -/
def methods (body : Text) : List Header :=
  (sites methodAt? body).filterMap fun s => header? s.found s.rest

/-- A class and its methods, as fragments. -/
def classFragments (s : Site Text) : List Text :=
  let (entry, rest) := classEntry s.found s.rest
  entry.fragment :: (methods (classBody rest)).map Header.fragment

/-- The headers of a source text: functions first, then each class with its methods. -/
def fragments (source : Text) : List Text :=
  let t := CommentStyle.hash.strip source
  distinct ((functions t).map Header.fragment ++ (sites classAt? t).flatMap classFragments)

end Synopsis.Python
