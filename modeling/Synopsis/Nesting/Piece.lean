import Synopsis.Nesting.Span

/-!
# Pieces outside brackets

Splitting a list at its own separators and not at those inside brackets. Two readings of "outside"
live here. `pieces` remembers which brackets are open, so a closer only closes its own kind, and it
counts a character before it looks at it. `breakTop?` keeps one count for all kinds and looks first.
In both, the `>` of `=>` and `->` closes nothing, and a closer with nothing to close is ignored.
-/

namespace Synopsis

open Text

/-- The brackets that count as nesting, each opener with its closer. -/
structure Brackets where
  pairs : List (Char × Char)
deriving DecidableEq, Repr

namespace Brackets

/-- Round, square, curly and angle brackets. -/
def all : Brackets := ⟨[('(', ')'), ('[', ']'), ('{', '}'), ('<', '>')]⟩

/-- Every kind but angle brackets, for languages where `<` is also a comparison. -/
def noAngle : Brackets := ⟨[('(', ')'), ('[', ']'), ('{', '}')]⟩

/-- Every kind but braces, for text that a body may follow. -/
def noCurly : Brackets := ⟨[('(', ')'), ('[', ']'), ('<', '>')]⟩

/-- Whether a character opens a bracket that counts. -/
def opens (b : Brackets) (c : Char) : Bool := b.pairs.any (·.1 == c)

/-- Whether a character closes a bracket that counts. -/
def closes (b : Brackets) (c : Char) : Bool := b.pairs.any (·.2 == c)

/-- The opener that a closer answers, whatever brackets count. -/
def openerOf? : Char → Option Char
  | ')' => some '('
  | ']' => some '['
  | '}' => some '{'
  | '>' => some '<'
  | _ => none

/-- The `>` of a fat or thin arrow. -/
def isArrowHead (prev : Option Char) (c : Char) : Bool :=
  c == '>' && (prev == some '=' || prev == some '-')

/-- Whether a character closes a bracket where it stands. -/
def closesHere (b : Brackets) (prev : Option Char) (c : Char) : Bool :=
  !b.opens c && b.closes c && !isArrowHead prev c

/-! ## Splitting -/

/-- The open brackets after a character. -/
def step (b : Brackets) (opened : List Char) (prev : Option Char) (c : Char) : List Char :=
  if b.opens c then c :: opened
  else if b.closesHere prev c then
    match openerOf? c with
    | some o => opened.erase o
    | none => opened
  else opened

/-- Every character with whether no bracket is open once it has been counted. -/
def marks (b : Brackets) : (opened : List Char) → (prev : Option Char) → Text → List (Char × Bool)
  | _, _, [] => []
  | opened, prev, c :: cs =>
    let opened := b.step opened prev c
    (c, opened.isEmpty) :: b.marks opened (some c) cs

/-- The stretches between top-level separators, as they stand. -/
def stretches (b : Brackets) (isSeparator : Char → Bool) (t : Text) : List Text :=
  ((b.marks [] none t).splitOnP fun m => m.2 && isSeparator m.1).map fun s => s.map Prod.fst

/-- The stretches between top-level separators, trimmed, without the blank ones. -/
def piecesBy (b : Brackets) (isSeparator : Char → Bool) (t : Text) : List Text :=
  ((b.stretches isSeparator t).map trim).filter (!·.isEmpty)

/-- The pieces between top-level commas. -/
def pieces (b : Brackets) (t : Text) : List Text := b.piecesBy (· == ',') t

/-! ## Breaking at the first occurrence -/

/-- Breaks a text that starts with `depth` brackets open. -/
def breakTopFrom (b : Brackets) (isTarget : Char → Bool) :
    (depth : Nat) → (prev : Option Char) → Text → Option (Text × Text)
  | _, _, [] => none
  | d, prev, c :: cs =>
    if isTarget c && d == 0 then some ([], cs)
    else
      let d := if b.opens c then d + 1 else if b.closesHere prev c then d - 1 else d
      (b.breakTopFrom isTarget d (some c) cs).map (keep c)

/-- The text before and after the first target outside brackets. -/
def breakTop? (b : Brackets) (target : Char) (t : Text) : Option (Text × Text) :=
  b.breakTopFrom (· == target) 0 none t

/-- The text before the first top-level target, trimmed, or the whole text when there is none. -/
def cutTop (b : Brackets) (target : Char) (t : Text) : Text :=
  match b.breakTop? target t with
  | some (head, _) => trim head
  | none => t

/-! ## Brackets given as text -/

/-- The brackets with the closer of one opener set. -/
def withPair (b : Brackets) (o c : Char) : Brackets :=
  ⟨b.pairs.filter (·.1 != o) ++ [(o, c)]⟩

/-- Brackets listed opener, closer, opener, closer; a later pair replaces an earlier one with the
    same opener. -/
def ofText? : Text → Brackets → Except NestingFault Brackets
  | [], b => .ok b
  | [_], _ => .error .unpairedBracket
  | o :: c :: cs, b => ofText? cs (b.withPair o c)

/-- The first closer of a text whose opener is not known or does not count. -/
def fault? (b : Brackets) : (prev : Option Char) → Text → Option NestingFault
  | _, [] => none
  | prev, c :: cs =>
    if b.closesHere prev c then
      match openerOf? c with
      | none => some (.unknownBracket c)
      | some o => if b.opens o then b.fault? (some c) cs else some (.unknownBracket o)
    else b.fault? (some c) cs

/-- Whether a text is one given character; a text of any other length never stands for one. -/
def spells (t : Text) (c : Char) : Bool := t == [c]

/-- `piecesBy` with separator and brackets given as text. -/
def piecesOf (separator brackets t : Text) : Except NestingFault (List Text) := do
  let b ← ofText? brackets ⟨[]⟩
  match b.fault? none t with
  | some fault => .error fault
  | none => .ok (b.piecesBy (spells separator) t)

/-- The offset of the first top-level target, with target and brackets given as text. -/
def offsetOf? (target brackets t : Text) : Except NestingFault (Option Nat) := do
  let b ← ofText? brackets ⟨[]⟩
  return (b.breakTopFrom (spells target) 0 none t).map (·.1.length)

end Brackets

end Synopsis
