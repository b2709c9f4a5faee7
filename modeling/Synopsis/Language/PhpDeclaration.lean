import Synopsis.Comment
import Synopsis.Fragment
import Synopsis.Nesting.Depth
import Synopsis.Scan.Site

/-!
# PHP: declarations

Classes, traits, interfaces and enums are listed, each followed by the methods that stand directly
in its braces; a marker comment carries the owner. Functions outside every such block come last.
Anonymous classes hide what is inside them.
-/

namespace Synopsis.Php

open Text

/-- A located declaration: a type by keyword and name, or a function with its parameters on one line,
    the text of its return type and its owner. -/
inductive Entry where
  | type (kind name : Text)
  | function (name parameters : Text) (returns owner : Option Text)
deriving DecidableEq, Repr

/-- The comment that carries the owner of a method. -/
def ownerMarker (owner : Text) : Text := "/*__CLASS:".toList ++ owner ++ "__*/".toList

/-- An entry written on one line. -/
def Entry.fragment : Entry → Text
  | .type kind name => kind ++ ' ' :: name
  | .function name params returns owner =>
    "function ".toList ++ name ++ '(' :: params ++ ')' ::
      (returns.map (": ".toList ++ ·)).getD [] ++
      (owner.map fun o => ' ' :: ownerMarker o).getD []

/-! ## Readers -/

/-- The words that may stand before the keyword of a class. -/
def modifiers : List String := ["abstract", "final", "readonly"]

/-- The text from the next brace on, if no semicolon comes before it. -/
def toBrace? (t : Text) : Option Text :=
  ahead? '{' (t.dropWhile fun c => c ≠ '{' && c ≠ ';')

/-- A type declaration up to its brace: keyword and name, and the text from the brace on. -/
def typeHead? (p : Place) : Option ((Text × Text) × Text) :=
  if !notAfter (fun c => isWord c || c == '$' || c == ':' || c == '>') p.prev then none
  else do
    let (kind, t) ← ["class", "trait", "interface", "enum"].findSome? fun k =>
      (keyword? k (skipKeywords modifiers p.rest)).map (k.toList, ·)
    let (name, t) ← name? t
    let t ← toBrace? t
    return ((kind, name), t)

/-- An anonymous class: everything up to the end of its block. -/
def anonymousAt? (p : Place) : Option (Unit × Text) :=
  if !p.isWordStart then none
  else do
    let t ← keyword? "new" p.rest
    let t ← wholeWord? "class" t
    let t ← toBrace? t
    return ((), t)

/-- A function head up to its parameters: its name. -/
def functionAt? (p : Place) : Option (Text × Text) :=
  if !p.isWordStart then none
  else do
    let t ← keyword? "function" p.rest
    let (name, t) ← name? (trimStart ((char? '&' t).getD t))
    let t ← ahead? '(' (trimStart t)
    return (name, t)

/-- The text of a return type: after a colon, up to a brace, a semicolon or the end of the line. -/
def returnText? (t : Text) : Option Text := do
  let t ← char? ':' (trimStart t)
  nonempty? (trim ((trimStart t).takeWhile fun c => c ≠ '{' && c ≠ ';' && c ≠ '\n'))

/-- The function whose name was just read, if its parameter list is closed. -/
def function? (owner : Option Text) (name : Text) (t : Text) : Option Entry := do
  let (params, rest) ← group? t
  return .function name (collapse params) (returnText? rest) owner

/-! ## Blocks -/

/-- A stretch of offsets, the end excluded. -/
structure Stretch where
  start : Nat
  stop : Nat

/-- Whether an offset lies in one of the stretches. -/
def covered (spans : List Stretch) (offset : Nat) : Bool :=
  spans.any fun s => s.start ≤ offset && offset < s.stop

/-- The stretch from an offset to the end of the block whose brace `t` starts with. -/
def blockStretch (size start : Nat) (t : Text) : Stretch := ⟨start, size - (braces t).2.length⟩

/-- The stretches of the anonymous classes, each from the word `new` to the end of its block. -/
def anonymousStretches (t : Text) : List Stretch :=
  (sites (fun p => (anonymousAt? p).map fun (_, r) => (r, r.drop 1)) t).map fun s =>
    blockStretch t.length s.start s.found

/-- A named type: keyword, name and the text of its block without the braces. -/
structure TypeBlock where
  kind : Text
  name : Text
  body : Text

/-- The type declaration at a place. One inside an anonymous class is read up to its brace only, and
    yields nothing; any other is read with its whole block, so that what is nested belongs to it. -/
def typeAt? (hidden : List Stretch) (p : Place) : Option (Option TypeBlock × Text) := do
  let ((kind, name), t) ← typeHead? p
  if covered hidden p.offset then return (none, t.drop 1)
  else
    let (block, rest) := braces t
    return (some ⟨kind, name, unwrap block⟩, rest)

/-- The methods that stand directly in the braces of a type. -/
def methods (owner body : Text) : List Entry :=
  let depths := braceDepths body
  ((sites functionAt? body).filter fun s => topLevelAt depths s.start).filterMap fun s =>
    function? (some owner) s.found s.rest

/-- A type and its methods. -/
def TypeBlock.entries (b : TypeBlock) : List Entry := .type b.kind b.name :: methods b.name b.body

/-! ## Sources -/

/-- The types of a text with where each stands. -/
def typeBlocks (t : Text) : List (Stretch × TypeBlock) :=
  (sites (typeAt? (anonymousStretches t)) t).filterMap fun s =>
    s.found.map fun b => (⟨s.start, t.length - s.rest.length⟩, b)

/-- The entries of a text without comments: each type with its methods, then global functions. -/
def entries (t : Text) : List Entry :=
  let types := typeBlocks t
  let spans := anonymousStretches t ++ types.map Prod.fst
  types.flatMap (·.2.entries) ++
    ((sites functionAt? t).filter fun s => !covered spans s.start).filterMap fun s =>
      function? none s.found s.rest

/-- The declarations of a source text. -/
def fragments (source : Text) : List Text :=
  distinct ((entries (CommentStyle.slashesAndHash.strip source)).map Entry.fragment)

end Synopsis.Php
