import Synopsis.Files.Path
import Synopsis.Language
import Synopsis.Text.Case

/-!
# The registry of languages

Which language reads a file is decided by the suffix of its name in lower case. A suffix belongs to at
most one language: a list in which two languages claim one is refused where the second claim is made,
and what was entered up to there stays.
-/

namespace Synopsis

open Text

/-- Anything that describes a language. -/
class HasProfile (α : Type) where
  profile : α → Profile

instance : HasProfile Language := ⟨Language.profile⟩

instance : HasProfile Profile := ⟨id⟩

open HasProfile (profile)

/-- The languages entered so far and the suffixes they own. -/
structure Registry (α : Type) where
  bySuffix : List (Text × α) := []
  languages : List α := []

/-- A suffix claimed a second time, as the second claim spells it. -/
structure Conflict where
  suffix : Text
  holder : Text
  claimant : Text
deriving DecidableEq, Repr

/-- The wording of a conflict. -/
def Conflict.message (c : Conflict) : Text :=
  "Suffix ".toList ++ c.suffix ++ " claimed by both ".toList ++ c.holder ++ " and ".toList ++
    c.claimant

namespace Registry

variable {α : Type}

/-- The language that owns a suffix, whatever its case. -/
def forSuffix? (r : Registry α) (suffix : Text) : Option α := r.bySuffix.lookup (lower suffix)

/-- The language that reads a file. -/
def forPath? (r : Registry α) (path : Path) : Option α := r.forSuffix? path.suffix

/-- All owned suffixes. -/
def suffixes (r : Registry α) : List Text := r.bySuffix.map Prod.fst

variable [HasProfile α]

/-- The directories that some entered language skips. -/
def ignoreDirs (r : Registry α) : List Text :=
  (r.languages.flatMap fun l => (profile l).ignoreDirs).eraseDups

/-- Gives suffixes to a language, up to the first one that is taken. -/
def claim (r : Registry α) (l : α) : (suffixes : List Text) → Registry α × Option Conflict
  | [] => (r, none)
  | s :: ss => match r.forSuffix? s with
    | some holder => (r, some ⟨s, (profile holder).name, (profile l).name⟩)
    | none => claim { r with bySuffix := r.bySuffix ++ [(lower s, l)] } l ss

/-- Enters languages one after the other, up to the first conflict. -/
def enter (r : Registry α) : List α → Registry α × Option Conflict
  | [] => (r, none)
  | l :: ls => match r.claim l (profile l).suffixes with
    | (r, some conflict) => (r, some conflict)
    | (r, none) => enter { r with languages := r.languages ++ [l] } ls

/-- The registry of a list of languages, with the conflict that ended it, if any. -/
def build (ls : List α) : Registry α × Option Conflict := enter {} ls

/-! ## Changes -/

/-- What can be done to a registry: replace it by a new one, fill it anew, or empty it. -/
inductive Change (α : Type) where
  | fresh (languages : List α)
  | rebuild (languages : List α)
  | clear

/-- The registry after a change. A new registry that fails leaves the old one in place; filling anew
    keeps what was entered before the conflict. -/
def apply (r : Registry α) : Change α → Registry α × Option Conflict
  | .fresh ls => match build ls with
    | (r', none) => (r', none)
    | (_, some conflict) => (r, some conflict)
  | .rebuild ls => build ls
  | .clear => ({}, none)

end Registry

/-- The registry of all languages. -/
def Registry.standard : Registry Language := (Registry.build Language.all).1

end Synopsis
