import Synopsis.Language.JavaMember
import Synopsis.Nesting.Piece
import Synopsis.Signature

/-!
# Java: from a member to a signature

A type is a bare name. A member has the last word before its parameters as its name and what
precedes that word as its return type; constructors have none.
-/

namespace Synopsis.Java

open Text

/-! ## Parameters -/

/-- The word `final` and the blanks after it. -/
def finalAt? (p : Place) : Option Text := if p.isWordStart then keyword? "final" p.rest else none

/-- How many empty index brackets a reversed name starts with, and the rest of it. -/
def indexBrackets : Text → Nat × Text
  | ']' :: '[' :: cs => let (n, rest) := indexBrackets cs; (n + 1, rest)
  | t => (0, t)

/-- One parameter: the last word is its name, and index brackets after the name belong to the type. A
    lone word is a name of unknown type. -/
def parameter (t : Text) : Parameter :=
  match lastWord? (trim (replaceAll finalAt? [] (stripAnnotations t))) with
  | none => { name := [], type := some "Object".toList }
  | some (none, name) => { name, type := some "Object".toList }
  | some (some type, name) =>
    let (n, rest) := indexBrackets name.reverse
    { name := rest.reverse, type := some (collapse (type ++ (List.replicate n "[]".toList).flatten)) }

/-- The parameters of a Java parameter list. -/
def parameters (t : Text) : List Parameter := (Brackets.all.pieces t).map parameter

/-! ## Declarations -/

/-- The owner that a marker at the end of a fragment names. -/
def ownerAt? (p : Place) : Option (Text × Text) := do
  let t ← after? "@class:".toList p.rest
  let (owner, t) ← run? isDollarWord t
  if blank t then some (owner, t) else none

/-- Splits a fragment into what precedes its owner marker, trimmed, and the owner. -/
def splitOwner (fragment : Text) : Text × Option Text :=
  match firstSite? ownerAt? fragment with
  | some s => (trim (fragment.take s.start), some s.found)
  | none => (fragment, none)

/-- The signature of a written type or member. -/
def signature (fragment : Text) : Except Rejection Signature := do
  let fragment := trim fragment
  if let some name := after? "class ".toList fragment then
    let name := trim name
    if isDollarName name then return { name } else throw .badTypeName
  let (t, className) := splitOwner fragment
  let some (head, _) := cutAt? '(' t | throw .missingParameters
  let some (params, _) := group? (t.drop head.length) | throw .unterminatedParameters
  let some (returnType, name) := lastWord? (trim head) | throw .missingName
  if !isDollarName name then throw .badMethodName
  return { name, returnType, className, parameters := parameters params }

end Synopsis.Java
