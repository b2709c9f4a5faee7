import Synopsis.Signature

/-!
# One line for a signature

A signature is shown as a pseudo-declaration: flag, owner, name, parameters and return type on one
line, whatever language it came from.
-/

namespace Synopsis

open Text

/-- A parameter with its type, if it has one. -/
def Parameter.line (p : Parameter) : Text :=
  match present? p.type with
  | some type => p.name ++ ": ".toList ++ type
  | none => p.name

/-- A signature as a single pseudo-declaration. -/
def Signature.line (s : Signature) : Text :=
  (if s.isAsync then "async ".toList else []) ++ "function ".toList ++
    ((present? s.className).map (· ++ ['.'])).getD [] ++ s.name ++
    '(' :: join ", " (s.parameters.map Parameter.line) ++ ')' ::
    ((present? s.returnType).map (": ".toList ++ ·)).getD []

end Synopsis
