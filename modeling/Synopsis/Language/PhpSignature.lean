import Synopsis.Language.PhpDeclaration
import Synopsis.Nesting.Piece
import Synopsis.Signature

/-!
# PHP: from a declaration to a signature

A parameter is named by its variable and typed by what stands before it, without attributes,
visibility words and the by-reference sign. Dots before the variable mark the type of the rest.
-/

namespace Synopsis.Php

open Text

/-! ## Attributes -/

/-- The text before the first attribute and the text after it. -/
def breakAttribute? (t : Text) : Option (Text × Text) :=
  (cut? "#[".toList t).map fun (head, _) => (head, (balanced '[' ']' (t.drop (head.length + 1))).2)

/-- An attribute takes at least its hash sign. -/
theorem length_lt_of_breakAttribute? {t head rest : Text}
    (h : breakAttribute? t = some (head, rest)) : (head ++ rest).length < t.length := by
  obtain ⟨⟨head', tail⟩, hcut, he⟩ := Option.map_eq_some_iff.1 h
  obtain ⟨rfl, rfl⟩ := Prod.mk.inj he
  have hspan := congrArg List.length (balanced_append '[' ']' (t.drop (head'.length + 1)))
  have htext := congrArg List.length (eq_of_cut? hcut)
  have hmark : "#[".toList.length = 2 := rfl
  simp only [List.length_append, List.length_drop] at hspan htext ⊢
  omega

/-- Removes every attribute, also one that a removal brings together. -/
def stripAttributes (t : Text) : Text :=
  match _h : breakAttribute? t with
  | some (head, rest) => stripAttributes (head ++ rest)
  | none => t
termination_by t.length
decreasing_by exact length_lt_of_breakAttribute? _h

/-! ## Parameters -/

/-- A visibility word of a promoted property and the blanks after it. -/
def promotionAt? (p : Place) : Option Text :=
  if p.isWordStart then
    ["public", "protected", "private", "readonly"].findSome? (keyword? · p.rest)
  else none

/-- Removes every occurrence of three dots. -/
def withoutDots : Text → Text
  | [] => []
  | '.' :: '.' :: '.' :: cs => withoutDots cs
  | c :: cs => c :: withoutDots cs

/-- A variable: a dollar sign and a name. -/
def variableAt? (p : Place) : Option (Text × Text) := (char? '$' p.rest).bind name?

/-- The type that the text before a variable gives it. -/
def parameterType (head : Text) : Option Text :=
  let type := nonempty? (trim (replaceAll promotionAt? [] (withoutDots (without '&' head))))
  if holds "...".toList head then some ("...".toList ++ type.getD []) else type

/-- One parameter without its default value; text without a variable is a name as it stands. -/
def parameter (t : Text) : Parameter :=
  match firstSite? variableAt? t with
  | some s => { name := s.found, type := parameterType (t.take s.start) }
  | none => { name := t }

/-- The parameters of a PHP parameter list. -/
def parameters (t : Text) : List Parameter :=
  (Brackets.noAngle.pieces (stripAttributes t)).map fun p =>
    parameter (Brackets.noAngle.cutTop '=' p)

/-! ## Declarations -/

/-- The name of a type entry, if the fragment is one. -/
def typeName? (fragment : Text) : Option Text := do
  let t ← ["class", "trait", "interface", "enum"].findSome? (keyword? · fragment)
  if isName t then some t else none

/-- The owner that a marker at the end of a fragment names, with the fragment before it. -/
def ownerAt? (p : Place) : Option Text := do
  let t ← after? "/*__CLASS:".toList p.rest
  let (run, t) ← name? t
  let t ← after? "*/".toList t
  if blank t && (after? "__".toList run.reverse).any (!·.isEmpty) then some (run.dropLast.dropLast)
  else none

/-- Splits a fragment into what precedes its owner marker, trimmed, and the owner. -/
def splitOwner (fragment : Text) : Text × Option Text :=
  match firstSite? (fun p => (ownerAt? p).map (·, [])) fragment with
  | some s => (trim (fragment.take s.start), some s.found)
  | none => (fragment, none)

/-- The return type after a parameter list, without what ends the header. -/
def returnType (t : Text) : Option Text := do
  let t ← char? ':' (trimStart t)
  nonempty? (trim (dropTrailing (fun c => c == '{' || c == ';') (trim t)))

/-- The signature of a declaration: a type entry is its bare name. -/
def signature (fragment : Text) : Except Rejection Signature := do
  let fragment := trim fragment
  if let some name := typeName? fragment then return { name }
  let (t, className) := splitOwner fragment
  let some (name, t) := (keyword? "function" t).bind name? | throw .notFunctionHeader
  let t := trimStart t
  if t.head? ≠ some '(' then throw .notFunctionHeader
  let some (params, t) := group? t | throw .unterminatedParameters
  return { name, className, parameters := parameters params, returnType := returnType t }

end Synopsis.Php
