import Synopsis.Text.Blank

/-!
# Balanced spans

A balanced span starts at an opening character and ends just past the close that brings the nesting
back to zero. Text that never closes is one span to its end, so a cut-off snippet still yields a
result. Spans are cut off the front of a text; `balancedAt` gives them by offset.
-/

namespace Synopsis

/-- Why a question about nesting has no answer. -/
inductive NestingFault where
  /-- An offset at which the text has no character. -/
  | offsetOutsideText
  /-- A list of brackets that ends in an opener without its closer. -/
  | unpairedBracket
  /-- A closer whose opener is not known, or an opener that is not among those that count. -/
  | unknownBracket (bracket : Char)
deriving DecidableEq, Repr

open Text

/-- Cuts a text just past the close that ends `depth` open spans. -/
def spanFrom (opener closer : Char) : (depth : Nat) → Text → Text × Text
  | _, [] => ([], [])
  | d, x :: xs =>
    if x = opener then keep x (spanFrom opener closer (d + 1) xs)
    else if x = closer then
      if d = 1 then ([x], xs) else keep x (spanFrom opener closer (d - 1) xs)
    else keep x (spanFrom opener closer d xs)

/-- The balanced span at the front of a text, with both delimiters, and the text after it. The span
    is empty when the text does not start with the opener. -/
def balanced (opener closer : Char) (t : Text) : Text × Text :=
  if t.head? = some opener then spanFrom opener closer 0 t else ([], t)

/-- A span and the text after it are the text. -/
theorem spanFrom_append (opener closer : Char) (d : Nat) (t : Text) :
    (spanFrom opener closer d t).1 ++ (spanFrom opener closer d t).2 = t := by
  induction t generalizing d with
  | nil => rfl
  | cons x xs ih =>
    rw [spanFrom]
    split
    · simp [keep, ih]
    · split
      · split <;> simp [keep, ih]
      · simp [keep, ih]

/-- A balanced span and the text after it are the text. -/
theorem balanced_append (opener closer : Char) (t : Text) :
    (balanced opener closer t).1 ++ (balanced opener closer t).2 = t := by
  rw [balanced]
  split
  · exact spanFrom_append opener closer 0 t
  · rfl

/-- The parenthesised span at the front of a text. -/
def parens (t : Text) : Text × Text := balanced '(' ')' t

/-- The span between braces at the front of a text. -/
def braces (t : Text) : Text × Text := balanced '{' '}' t

/-- A parenthesised span that ends in a parenthesis, without its delimiters. -/
def group? (t : Text) : Option (Text × Text) :=
  let (span, rest) := parens t
  if span.getLast? = some ')' then some (unwrap span, rest) else none

/-! ## Spans by offset -/

/-- The characters from one offset up to another. -/
def slice (t : Text) (start stop : Nat) : Text := (t.take stop).drop start

/-- How many characters the span at the front of a text takes, where delimiters that are not single
    characters never occur. -/
def spanLength (opener closer : Text) (t : Text) : Nat :=
  match opener, closer with
  | [o], [c] => (balanced o c t).1.length
  | [o], _ => if t.head? = some o then t.length else 0
  | _, _ => 0

/-- The balanced span at an offset and the offset just past it. A negative offset counts from the
    end of the text; the span then runs through the end of the text and on from its beginning, and
    what is returned is the part between the two offsets. -/
def balancedAt (opener closer : Text) (t : Text) (start : Int) : Except NestingFault (Text × Int) :=
  let size := t.length
  if 0 ≤ start then
    let here := t.drop start.toNat
    let taken := spanLength opener closer here
    .ok (here.take taken, start + taken)
  else if start + size < 0 then .error .offsetOutsideText
  else
    let first := (start + size).toNat
    let taken := spanLength opener closer (t.drop first ++ t)
    let stop := start + taken
    if taken = 0 then .ok ([], start)
    else if stop < 0 then .ok (slice t first (stop + size).toNat, stop)
    else .ok (slice t first stop.toNat, stop)

end Synopsis
