import Synopsis.Language.RustItem
import Synopsis.Signature

/-!
# Rust: from an item to a signature

The name keeps its owner and its generics. A receiver becomes the parameter `self`, and a function
with one is a method.
-/

namespace Synopsis.Rust

open Text

/-- One parameter: a receiver, or a pattern with the type after its colon. -/
def parameter (t : Text) : Parameter :=
  if (receiver? t).isSome then { name := "self".toList }
  else
    let (name, type) := match Brackets.all.breakTop? ':' t with
      | some (name, type) => (trim name, nonempty? (collapse type))
      | none => (t, none)
    match after? "mut ".toList name with
    | some name => { name := trim name, type, isMutable := true }
    | none => { name, type }

/-- The parameters of a Rust parameter list. -/
def parameters (t : Text) : List Parameter := (Brackets.all.pieces t).map parameter

/-- A name with the owner before it, if a name follows the double colon. -/
def path? (t : Text) : Option (Text × Text) := do
  let (first, rest) ← word? t
  return (((after? "::".toList rest).bind word?).map fun (second, rest) =>
    (first ++ "::".toList ++ second, rest)).getD (first, rest)

/-- The signature of a written item. -/
def signature (fragment : Text) : Except Rejection Signature := do
  let (isAsync, t) := flag "async" (trim fragment)
  let some (name, t) := (keyword? "fn" t).bind path? | throw .notFnHeader
  let (own, t) := generics (trimStart t)
  let some (params, t) := group? t | throw .unterminatedParameters
  return {
    name := name ++ own
    parameters := parameters params
    returnType := returnType t
    isAsync
    isMethod := (Brackets.all.pieces params).head?.any fun p => (receiver? p).isSome }

end Synopsis.Rust
