import Synopsis.Nesting.Span

/-!
# Depth tables

For every offset of a text, how many braces or how many round and square brackets are open there.
A stray closer leaves the depth at zero.
-/

namespace Synopsis

/-- Brace depths of a text that starts `depth` levels deep. -/
def braceDepthsFrom : (depth : Nat) → Text → List Nat
  | _, [] => []
  | d, x :: xs =>
    if x = '{' then (d + 1) :: braceDepthsFrom (d + 1) xs
    else if x = '}' then d :: braceDepthsFrom (d - 1) xs
    else d :: braceDepthsFrom d xs

/-- The brace depth at every offset: an opening brace reports the depth it opens and a closing brace
    the depth it closes, so zero means top level. -/
def braceDepths (t : Text) : List Nat := braceDepthsFrom 0 t

/-- Group depths of a text that starts `depth` levels deep. -/
def groupDepthsFrom : (depth : Nat) → Text → List Nat
  | _, [] => []
  | d, x :: xs =>
    d :: groupDepthsFrom
      (if x = '(' || x = '[' then d + 1 else if x = ')' || x = ']' then d - 1 else d) xs

/-- How many round and square brackets are open before every offset. -/
def groupDepths (t : Text) : List Nat := groupDepthsFrom 0 t

/-- Whether a depth table has zero at an offset. -/
def topLevelAt (depths : List Nat) (offset : Nat) : Bool := depths[offset]? == some 0

end Synopsis
