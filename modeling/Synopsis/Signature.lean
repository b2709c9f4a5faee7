import Synopsis.Text.Basic

/-!
# Signatures

A function-like declaration reduced to one shape for all languages, and the reasons for which a
fragment of source text is none. An absent text and an empty one mean the same to every reader of a
signature.
-/

namespace Synopsis

/-- One declared parameter. -/
structure Parameter where
  name : Text
  type : Option Text := none
  isMutable : Bool := false
deriving DecidableEq, Repr

/-- A declaration with its parameters in source order. -/
structure Signature where
  name : Text
  parameters : List Parameter := []
  returnType : Option Text := none
  isAsync : Bool := false
  isMethod : Bool := false
  className : Option Text := none
deriving DecidableEq, Repr

/-- Why a fragment is not a signature. -/
inductive Rejection where
  | notFunc
  | missingFunctionName
  | missingParameters
  | unterminatedParameters
  | badTypeName
  | missingName
  | badMethodName
  | notFunctionHeader
  | notDefHeader
  | notFnHeader
  | malformedArrow
  | noHeader
deriving DecidableEq, Repr

/-- The wording of a rejection. -/
def Rejection.message : Rejection → Text
  | .notFunc => "not a func declaration".toList
  | .missingFunctionName => "missing function name".toList
  | .missingParameters => "missing parameter list".toList
  | .unterminatedParameters => "unterminated parameter list".toList
  | .badTypeName => "bad type name".toList
  | .missingName => "missing name".toList
  | .badMethodName => "bad method name".toList
  | .notFunctionHeader => "not a function header".toList
  | .notDefHeader => "not a def header".toList
  | .notFnHeader => "not an fn header".toList
  | .malformedArrow => "malformed arrow binding".toList
  | .noHeader => "no declaration header".toList

end Synopsis
