import Synopsis.Comment
import Synopsis.Fragment
import Synopsis.Nesting.Depth
import Synopsis.Nesting.Piece
import Synopsis.Scan.Site

/-!
# Rust: items

Functions at the start of a line, and the functions that stand directly in the braces of `impl` and
`trait` blocks. A leading receiver is written as `self`, `&self` or `&mut self`, whatever form it was
declared in, and an owner stands before the name.
-/

namespace Synopsis.Rust

open Text

/-! ## Parts of a header -/

/-- Cuts generics that have `depth` angle brackets open; the `>` of `->` closes none. -/
def genericsFrom : (depth : Nat) → (prev : Option Char) → Text → Text × Text
  | _, _, [] => ([], [])
  | d, prev, c :: cs =>
    if c = '<' then keep c (genericsFrom (d + 1) (some c) cs)
    else if c = '>' && prev ≠ some '-' then
      if d = 1 then ([c], cs) else keep c (genericsFrom (d - 1) (some c) cs)
    else keep c (genericsFrom d (some c) cs)

/-- The generics at the front of a text, with their brackets, and the text after them. -/
def generics (t : Text) : Text × Text :=
  if t.head? = some '<' then genericsFrom 0 none t else ([], t)

/-- The word `where` at a place. -/
def whereAt? (p : Place) : Option Text := if p.isWordStart then wholeWord? "where" p.rest else none

/-- The word `for` and the blanks after it. -/
def forAt? (p : Place) : Option Text := if p.isWordStart then keyword? "for" p.rest else none

/-- The text before a `where` clause. -/
def beforeWhere (t : Text) : Text := ((breakAt? whereAt? t).map Prod.fst).getD t

/-- The return type that follows a parameter list: after the arrow, up to the body, a semicolon or a
    `where` clause, and without any of them up to the end of the line. -/
def returnType (t : Text) : Option Text := do
  let t ← after? "->".toList (trimStart t)
  let t := beforeWhere t
  let type := match Brackets.noCurly.breakTopFrom (fun c => c == '{' || c == ';') 0 none t with
    | some (head, _) => head
    | none => before '\n' t
  nonempty? (collapse type)

/-! ## Receivers -/

/-- How a method takes its receiver. -/
inductive Receiver where
  | value
  | ref
  | mutRef
deriving DecidableEq, Repr

/-- The one way in which each kind of receiver is written. -/
def Receiver.text : Receiver → Text
  | .value => "self".toList
  | .ref => "&self".toList
  | .mutRef => "&mut self".toList

/-- Skips a lifetime and the blanks after it. -/
def skipLifetime (t : Text) : Text :=
  (((char? '\'' t).bind word?).bind fun (_, t) => skip1? isBlank t).getD t

/-- A reference sign with its lifetime, if there is one: whether, and what follows. -/
def reference (t : Text) : Bool × Text :=
  match char? '&' t with
  | some t => (true, skipLifetime (trimStart t))
  | none => (false, t)

/-- A receiver without a type: `self` after an optional reference and `mut`. -/
def plainReceiver? (t : Text) : Option Receiver := do
  let (isRef, t) := reference t
  let (isMut, t) := flag "mut" t
  let t ← after? "self".toList t
  if t.isEmpty || t == ['\n'] then
    some (if !isRef then .value else if isMut then .mutRef else .ref)
  else none

/-- A receiver with a type: the type tells how it is taken. -/
def typedReceiver? (t : Text) : Option Receiver := do
  let t ← after? "self".toList (flag "mut" t).2
  let t ← char? ':' (trimStart t)
  if t.isEmpty then none
  else
    let (isRef, type) := reference (trim t)
    some (if !isRef then .value else if (wholeWord? "mut" type).isSome then .mutRef else .ref)

/-- The receiver that a parameter declares, if it is one. -/
def receiver? (t : Text) : Option Receiver := (plainReceiver? t).or (typedReceiver? t)

/-- A receiver in the one way it is written; any other parameter as it stands. -/
def canonicalReceiver (t : Text) : Text := ((receiver? t).map Receiver.text).getD t

/-! ## Owners -/

/-- What follows the last double colon, read from the left, of a text whose current segment is
    `segment`, reversed. -/
def lastSegmentFrom : (segment : Text) → Text → Text
  | s, [] => s.reverse
  | _, ':' :: ':' :: cs => lastSegmentFrom [] cs
  | s, c :: cs => lastSegmentFrom (c :: s) cs

/-- Drops a reference sign, a lifetime, `mut` and `dyn` from the front of a type. -/
def bareType (t : Text) : Text :=
  let (isRef, rest) := reference t
  if isRef then (flag "dyn" (flag "mut" rest).2).2 else t

/-- The bare name of the type that an `impl` header gives methods to. -/
def implOwner? (header : Text) : Option Text :=
  let t := beforeWhere (generics (trim header)).2
  let t := bareType (trim (((breakAt? forAt? t).map Prod.snd).getD t))
  let name := trim (lastSegmentFrom [] (before '<' t))
  if isName name then some name else none

/-! ## Items -/

/-- A located function: its generics, parameters and return type on one line. -/
structure Item where
  isAsync : Bool
  owner : Option Text
  name : Text
  generics : Text
  parameters : List Text
  returns : Option Text
deriving DecidableEq, Repr

/-- An item written on one line. -/
def Item.fragment (i : Item) : Text :=
  (if i.isAsync then "async ".toList else []) ++ "fn ".toList ++
    (i.owner.map (· ++ "::".toList)).getD [] ++ i.name ++ i.generics ++
    '(' :: join ", " i.parameters ++ ')' :: (i.returns.map (" -> ".toList ++ ·)).getD []

/-- Skips `pub` with its scope. -/
def skipVisibility (t : Text) : Text :=
  (do let t ← after? "pub".toList t
      let afterScope := do
        let u ← char? '(' t
        char? ')' (u.dropWhile (· ≠ ')'))
      skip1? isBlank (afterScope.getD t)).getD t

/-- Skips `extern` with its quoted convention. -/
def skipExtern (t : Text) : Text :=
  (do let t ← keyword? "extern" t
      let t ← char? '"' t
      let t ← char? '"' (t.dropWhile (· ≠ '"'))
      skip1? isBlank t).getD t

/-- A function head up to its generics: whether it is asynchronous, and its name. -/
def fnHead? (t : Text) : Option ((Bool × Text) × Text) := do
  let t := skipKeyword ["const"] (skipKeyword ["default"] (skipVisibility t))
  let (isAsync, t) := flag "async" t
  let t ← keyword? "fn" (skipExtern (skipKeyword ["unsafe"] t))
  let (name, t) ← word? t
  return ((isAsync, name), trimStart t)

/-- A function head at the start of a line. -/
def functionAt? (p : Place) : Option ((Bool × Text) × Text) :=
  if p.isLineStart then fnHead? p.rest else none

/-- A function head inside a block. -/
def memberAt? (p : Place) : Option ((Bool × Text) × Text) :=
  if notAfter (fun c => isWord c || c == ':') p.prev then fnHead? p.rest else none

/-- The words of each parameter on one line, a leading receiver in the one way it is written. -/
def writtenParameters (params : Text) : List Text :=
  ((Brackets.all.pieces params).map collapse).modifyHead canonicalReceiver

/-- The item whose head was just read, if its parameter list is closed. -/
def item? (owner : Option Text) (head : Bool × Text) (t : Text) : Option Item := do
  let (own, t) := generics t
  let (params, rest) ← group? (t.dropWhile fun c => c == ' ' || c == '\t' || c == '\r' || c == '\n')
  return ⟨head.1, owner, head.2, collapse own, writtenParameters params, returnType rest⟩

/-! ## Blocks -/

/-- The header up to the next brace and the text inside the block that it opens, unless a semicolon
    comes first. -/
def block? (t : Text) : Option (Text × Text) := do
  let (header, rest) ← cutAt? '{' t
  if header.contains ';' then none else some (header, unwrap (braces ('{' :: rest)).1)

/-- The word `impl` on a line of its own. -/
def implAt? (p : Place) : Option (Unit × Text) :=
  if p.isLineStart then
    (wholeWord? "impl" (skipKeyword ["unsafe"] (p.rest.dropWhile isIndent))).map ((), ·)
  else none

/-- A trait head on a line of its own: its name. -/
def traitAt? (p : Place) : Option (Text × Text) :=
  if p.isLineStart then
    (keyword? "trait" (skipKeyword ["unsafe"] (skipVisibility (p.rest.dropWhile isIndent)))).bind
      word?
  else none

/-- The functions that stand directly in a block. -/
def members (owner body : Text) : List Item :=
  let depths := braceDepths body
  ((sites memberAt? body).filter fun s => topLevelAt depths s.start).filterMap fun s =>
    item? (some owner) s.found s.rest

/-- The members of an `impl` block whose header the text continues. -/
def implItems (t : Text) : List Item :=
  ((block? t).bind fun (header, body) => (implOwner? header).map (members · body)).getD []

/-- The members of a trait whose name was just read. -/
def traitItems (name t : Text) : List Item :=
  ((block? t).map fun (_, body) => members name body).getD []

/-- The items of a text without comments: free functions, `impl` members, trait members. -/
def items (t : Text) : List Item :=
  (sites functionAt? t).filterMap (fun s => item? none s.found s.rest) ++
    (sites implAt? t).flatMap (fun s => implItems s.rest) ++
    (sites traitAt? t).flatMap fun s => traitItems s.found s.rest

/-- The functions of a source text. -/
def fragments (source : Text) : List Text :=
  distinct ((items (CommentStyle.slashes.strip source)).map Item.fragment)

end Synopsis.Rust
