import Synopsis.Comment
import Synopsis.Fragment
import Synopsis.Nesting.Span
import Synopsis.Scan.Site

/-!
# Go: declaration windows

Every word `func` followed by a blank opens a window, which runs to the brace of the body. Braces of
an `interface` or `struct` type belong to the signature, and a newline after the parameters ends a
declaration without body. A window is a fragment when its first line holds a parenthesis.
-/

namespace Synopsis.Go

open Text

/-- Whether the reversed text ends in the word `interface` or `struct` and blanks, in at most sixteen
    characters: the brace that follows belongs to a type. -/
def endsInBracedType (before : Text) : Bool :=
  let gap := before.takeWhile isBlank
  let rest := before.dropWhile isBlank
  ["interface", "struct"].any fun w =>
    gap.length + w.length ≤ 16 && (after? w.toList.reverse rest).any (notBefore isWord)

/-- Cuts off the rest of a window. `before` is what was read of it, reversed; `skip` counts the
    characters still inside the braces of a type; `closed` tells that a parameter list has ended. -/
def windowFrom : (skip : Nat) → (before : Text) → (parens squares : Nat) → (closed : Bool) →
    Text → Text × Text
  | _, _, _, _, _, [] => ([], [])
  | n + 1, before, p, s, closed, c :: cs => keep c (windowFrom n (c :: before) p s closed cs)
  | 0, before, p, s, closed, c :: cs =>
    if c = '\n' && closed && p == 0 && s == 0 then ([], c :: cs)
    else if c = '{' && p == 0 && s == 0 then
      if endsInBracedType before then
        keep c (windowFrom ((braces (c :: cs)).1.length - 1) (c :: before) p s closed cs)
      else ([c], cs)
    else
      let p' := if c = '(' then p + 1 else if c = ')' then p - 1 else p
      let s' := if c = '[' then s + 1 else if c = ']' then s - 1 else s
      keep c (windowFrom 0 (c :: before) p' s' (closed || (c = ')' && p' == 0)) cs)

/-- A window at a place: the word `func`, a blank and all up to the end of the signature. -/
def window? (p : Place) : Option (Text × Text) :=
  if !p.isWordStart then none
  else do
    let rest ← after? "func".toList p.rest
    if !rest.head?.any isBlank then none
    else
      let (body, rest) := windowFrom 0 "cnuf".toList 0 0 false rest
      some ("func".toList ++ body, rest)

/-- Whether a parenthesis follows the word `func` on its line and before any brace. -/
def isCandidate (window : Text) : Bool :=
  ((keyword? "func" window).map fun t => (t.takeWhile fun c => c ≠ '\n' && c ≠ '{').contains '(')
    |>.getD false

/-- The windows of a text without comments. -/
def windows (t : Text) : List Text := (sites window? t).map (·.found)

/-- The declaration windows of a source text. -/
def fragments (source : Text) : List Text :=
  distinct ((windows (CommentStyle.slashes.strip source)).filter isCandidate)

end Synopsis.Go
