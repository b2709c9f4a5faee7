import Synopsis.Nesting.Piece
import Synopsis.Scan.Site
import Synopsis.Signature

/-!
# TypeScript and JavaScript: from a declaration to a signature

A declaration is an arrow binding or a header with a parameter list; an owner marker may stand
anywhere in it. Parameters lose their default values, unless an arrow in them makes it unclear what
an equals sign belongs to.
-/

namespace Synopsis.Script

open Text

/-! ## Parameters -/

/-- The words that may stand before the name of a parameter. -/
def parameterModifiers : List String := ["public", "private", "protected", "readonly", "override"]

/-- The name and type of one piece of a parameter list; nothing when no name is left. -/
def parameter? (piece : Text) : Option Parameter :=
  let t := if holds "=>".toList piece then piece else Brackets.all.cutTop '=' piece
  let (name, type) := match Brackets.all.breakTop? ':' t with
    | some (name, type) => (trim name, nonempty? (trim type))
    | none => (t, none)
  (nonempty? (skipKeywords parameterModifiers name)).map fun name => { name, type }

/-- The parameters of a TypeScript parameter list. -/
def parameters (t : Text) : List Parameter := (Brackets.all.pieces t).filterMap parameter?

/-! ## Owners -/

/-- An owner marker. -/
def ownerAt? (p : Place) : Option (Text × Text) :=
  (after? "@class:".toList p.rest).bind (run? isDollarWord)

/-- Takes the first owner marker out of a fragment. -/
def splitOwner (fragment : Text) : Text × Option Text :=
  match firstSite? ownerAt? fragment with
  | some s => (fragment.take s.start ++ s.rest, some s.found)
  | none => (fragment, none)

/-! ## Arrow bindings -/

/-- A constant up to its parameter list: its name, and whether the function is asynchronous. -/
def arrowHead? (t : Text) : Option ((Text × Bool) × Text) := do
  let t ← keyword? "const" (flag "export" t).2
  let (name, t) ← run? isDollarWord t
  let t ← char? '=' (trimStart t)
  let (isAsync, t) := flag "async" (trimStart t)
  let t ← ahead? '(' t
  return ((name, isAsync), t)

/-- The return type before an arrow that ends the text; nothing when there is no such arrow. -/
def arrowReturn? (t : Text) : Option (Option Text) :=
  match char? ':' (trimStart t) with
  | none => if trim t = "=>".toList then some none else none
  | some t => do
    let type ← after? ">=".toList (trimEnd t).reverse
    if type.isEmpty then none else some (nonempty? (trim type.reverse))

/-! ## Headers -/

/-- A header that was read up to its parameter list. -/
structure Header where
  isAsync : Bool
  name : Text

/-- A name with its type parameters, in front of a parenthesis. -/
def headerName? (t : Text) : Option (Text × Text) := do
  let (name, t) ← run? (fun c => isDollarWord c || c == '#') t
  let (own, t) := match char? '<' t with
    | none => ([], t)
    | some u => (u.takeWhile (· ≠ '>'), (u.dropWhile (· ≠ '>')).drop 1)
  let t ← ahead? '(' (trimStart t)
  return (if own.isEmpty then name else name ++ '<' :: own ++ ['>'], t)

/-- Reads on behind one of the given words, or, when that leads nowhere, in front of it. -/
def optionally {α : Type} (words : List String) (next : Bool → Text → Option α) (t : Text) :
    Option α :=
  ((words.findSome? (keyword? · t)).bind (next true)).or (next false t)

/-- A header: words for export, visibility, asynchrony and function, each at most once, then a name.
    A word that must be the name is not taken for any of them. -/
def header? (t : Text) : Option (Header × Text) :=
  t |> optionally ["export"] fun _ =>
    optionally ["public", "private", "protected"] fun _ =>
      optionally ["async"] fun isAsync =>
        optionally ["function"] fun _ t =>
          (headerName? t).map fun (name, rest) => (⟨isAsync, name⟩, rest)

/-- The return type after a parameter list, up to an at sign, without what ends the header. -/
def returnType (t : Text) : Option Text := do
  let t ← char? ':' (trimStart t)
  let type := trim (t.takeWhile (· ≠ '@'))
  nonempty? (trim (dropTrailing (fun c => c == ';' || c == '{') type))

/-! ## Declarations -/

/-- The signature of a written declaration. -/
def signature (fragment : Text) : Except Rejection Signature := do
  let (t, className) := splitOwner fragment
  let t := trim t
  if let some ((name, isAsync), t) := arrowHead? t then
    let (params, rest) := parens t
    let some returnType := arrowReturn? rest | throw .malformedArrow
    return { name, isAsync, className, returnType, parameters := parameters (unwrap params) }
  let some (header, t) := header? t | throw .noHeader
  let some (params, rest) := group? t | throw .unterminatedParameters
  return {
    name := header.name
    isAsync := header.isAsync
    className
    parameters := parameters params
    returnType := returnType rest }

end Synopsis.Script
