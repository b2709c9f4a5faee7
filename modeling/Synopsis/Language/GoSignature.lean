import Synopsis.Nesting.Piece
import Synopsis.Scan.Reader
import Synopsis.Signature

/-!
# Go: from a window to a signature

A declaration is `func (receiver) Name[Generics](parameters) results {`. The receiver gives the
owner, and its type arguments stand in for those of a method that has none of its own.
-/

namespace Synopsis.Go

open Text

/-! ## Parts of a declaration -/

/-- The bare type of a receiver: no pointer stars, package or type arguments. -/
def receiverType (receiver : Text) : Option Text := do
  let last ← (words (before '[' receiver)).getLast?
  nonempty? (afterLast '.' (last.dropWhile (· == '*')))

/-- The type arguments of a receiver. -/
def receiverGenerics (receiver : Text) : Option Text :=
  let (span, _) := balanced '[' ']' (receiver.dropWhile (· ≠ '['))
  nonempty? (trim (unwrap span))

/-- The words of a result type on one line. -/
def resultType (t : Text) : Option Text := nonempty? (collapse t)

/-! ## Parameters -/

/-- Gives each waiting name the type of the group that it belongs to. -/
def typed (names : List Text) (type : Text) : List Parameter :=
  names.map fun n => { name := n, type := some type }

/-- Reads the pieces of a parameter list. A lone name waits for the type of a later piece; names that
    still wait at the end stay untyped. A function type without a name comes out at once. -/
def resolve : (waiting : List Text) → (pieces : List Text) → List Parameter
  | waiting, [] => waiting.map fun n => { name := n }
  | waiting, p :: ps =>
    if (after? "func(".toList p).isSome then
      { name := "(anonymous)".toList, type := some p } :: resolve waiting ps
    else match firstWord? p with
      | some (name, some type) => typed (waiting ++ [name]) (collapse type) ++ resolve [] ps
      | some (name, none) => resolve (waiting ++ [name]) ps
      | none => resolve waiting ps

/-- The parameters of a Go parameter list. -/
def parameters (t : Text) : List Parameter := resolve [] (Brackets.noAngle.pieces t)

/-! ## Declarations -/

/-- A bracketed group at the front of a text, trimmed inside, and the trimmed rest. -/
def leading (opener closer : Char) (t : Text) : Option Text × Text :=
  if t.head? = some opener then
    let (span, rest) := balanced opener closer t
    (some (trim (unwrap span)), trim rest)
  else (none, t)

/-- The result type that the text after a parameter list announces. -/
def results (t : Text) : Option Text :=
  let t := trim (if t.getLast? = some '{' then t.dropLast else before '\n' t)
  if t.head? = some '(' then
    (resultType (unwrap (parens t).1)).map fun r => '(' :: r ++ [')']
  else resultType t

/-- The signature that a window declares. -/
def signature (fragment : Text) : Except Rejection Signature := do
  let some t := after? "func".toList (trim fragment) | throw .notFunc
  let (receiver, t) := leading '(' ')' (trim t)
  let some (name, t) := name? t | throw .missingFunctionName
  let (own, t) := leading '[' ']' (trim t)
  if t.head? ≠ some '(' then throw .missingParameters
  let some (params, t) := group? t | throw .unterminatedParameters
  let receiver := present? receiver
  let generics := (present? own).or (receiver.bind receiverGenerics)
  return {
    name := match generics with
      | some g => name ++ '[' :: g ++ [']']
      | none => name
    parameters := parameters params
    returnType := results (trim t)
    className := receiver.bind receiverType }

end Synopsis.Go
