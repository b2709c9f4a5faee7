import Synopsis.Scan.Reader

/-!
# Sites: where a reader succeeds

A search goes through a text from left to right, tries its reader at every place and, after a hit,
goes on behind what the reader took. The hits are data: later steps filter them by depth and turn
them into fragments.
-/

namespace Synopsis

open Text

/-- A place in a text: the character before it, its offset and all that follows. -/
structure Place where
  prev : Option Char
  offset : Nat
  rest : Text

/-- Whether the place is the very start of the text or follows a line feed. -/
def Place.isLineStart (p : Place) : Bool := p.prev.all (· == '\n')

/-- Whether no word character stands just before the place. -/
def Place.isWordStart (p : Place) : Bool := notAfter isWord p.prev

/-- The offset at which a later part of the text at a place starts. -/
def Place.offsetOf (p : Place) (t : Text) : Nat := p.offset + (p.rest.length - t.length)

/-- A hit: where it starts, what was read and what follows it. -/
structure Site (α : Type) where
  start : Nat
  found : α
  rest : Text

/-- The hits of a reader in a text whose first `skip` characters are already taken. -/
def sitesFrom {α : Type} (read : Place → Option (α × Text)) :
    (skip : Nat) → (prev : Option Char) → (offset : Nat) → Text → List (Site α)
  | _, _, _, [] => []
  | n + 1, _, k, c :: cs => sitesFrom read n (some c) (k + 1) cs
  | 0, prev, k, c :: cs => match read ⟨prev, k, c :: cs⟩ with
    | some (a, rest) =>
      ⟨k, a, rest⟩ :: sitesFrom read (cs.length - rest.length) (some c) (k + 1) cs
    | none => sitesFrom read 0 (some c) (k + 1) cs

/-- All hits of a reader, from left to right, none overlapping another. -/
def sites {α : Type} (read : Place → Option (α × Text)) (t : Text) : List (Site α) :=
  sitesFrom read 0 none 0 t

/-- The first hit of a reader. -/
def firstSite? {α : Type} (read : Place → Option (α × Text)) (t : Text) : Option (Site α) :=
  (sites read t).head?

/-- Writes `put` in place of every hit of a reader, in a text whose first `skip` characters are
    already replaced. -/
def replaceFrom (read : Place → Option Text) (put : Text) :
    (skip : Nat) → (prev : Option Char) → (offset : Nat) → Text → Text
  | _, _, _, [] => []
  | n + 1, _, k, c :: cs => replaceFrom read put n (some c) (k + 1) cs
  | 0, prev, k, c :: cs => match read ⟨prev, k, c :: cs⟩ with
    | some rest => put ++ replaceFrom read put (cs.length - rest.length) (some c) (k + 1) cs
    | none => c :: replaceFrom read put 0 (some c) (k + 1) cs

/-- Writes `put` in place of everything the reader takes. -/
def replaceAll (read : Place → Option Text) (put : Text) (t : Text) : Text :=
  replaceFrom read put 0 none 0 t

/-- The text before the first place where the reader succeeds and the rest it leaves, for a text that
    follows `prev`. -/
def breakFrom (read : Place → Option Text) :
    (prev : Option Char) → (offset : Nat) → Text → Option (Text × Text)
  | _, _, [] => none
  | prev, k, c :: cs => match read ⟨prev, k, c :: cs⟩ with
    | some rest => some ([], rest)
    | none => (breakFrom read (some c) (k + 1) cs).map (keep c)

/-- The text before the first hit of a reader and what the reader leaves. -/
def breakAt? (read : Place → Option Text) (t : Text) : Option (Text × Text) :=
  breakFrom read none 0 t

end Synopsis
