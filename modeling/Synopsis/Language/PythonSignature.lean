import Synopsis.Nesting.Piece
import Synopsis.Scan.Reader
import Synopsis.Signature

/-!
# Python: from a header to a signature

Parameters lose their default values, and the bare markers `*` and `/` are no parameters. Class
entries are rejected: they only say where methods come from.
-/

namespace Synopsis.Python

open Text

/-- The name and annotation of one parameter without its default. -/
def parameter (t : Text) : Parameter :=
  match Brackets.noAngle.breakTop? ':' t with
  | some (name, type) => { name := trim name, type := nonempty? (trim type) }
  | none => { name := t }

/-- The parameters of a Python parameter list. -/
def parameters (t : Text) : List Parameter :=
  let cut := (Brackets.noAngle.pieces t).map (Brackets.noAngle.cutTop '=')
  (cut.filter fun p => p ≠ ['*'] && p ≠ ['/']).map parameter

/-- The return type after an arrow, without the colon that ends the header. -/
def returnType (t : Text) : Option Text := do
  let t ← after? "->".toList (trimStart t)
  nonempty? (trim (dropTrailing (· == ':') (trim t)))

/-- The signature of a `def` header. -/
def signature (fragment : Text) : Except Rejection Signature := do
  let (isAsync, t) := flag "async" (trim fragment)
  let some (name, t) := (keyword? "def" t).bind word? | throw .notDefHeader
  let t := trimStart t
  if t.head? ≠ some '(' then throw .notDefHeader
  let some (params, t) := group? t | throw .unterminatedParameters
  let parameters := parameters params
  return {
    name, parameters, isAsync
    returnType := returnType t
    isMethod := parameters.head?.any (·.name == "self".toList) }

end Synopsis.Python
