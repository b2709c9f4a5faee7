import Synopsis.Text.Word
import Synopsis.Text.CaseRanges

/-!
# Lower case

The small form of a text in every script. Two letters need more than a table: the dotted capital I
has a small form of two characters, and the capital sigma has a form of its own at the end of a word.
-/

namespace Synopsis.Text

/-- The character of a code point moved by a distance. -/
def shiftChar (c : Char) (distance : Int) : Char :=
  Char.ofNat (c.toNat + distance).toNat

/-- Whether the run gives this code point a small form. -/
def CaseRun.covers (r : CaseRun) (n : Nat) : Bool :=
  r.first ≤ n && n ≤ r.last && (n - r.first) % r.step == 0

/-- The small form of one character, where that is one character. -/
def lowerChar (c : Char) : Char :=
  if c.toNat < 128 then c.toLower
  else match lowerRuns.find? (·.covers c.toNat) with
    | some r => shiftChar c r.shift
    | none => c

/-- Whether the first character that case does not ignore has a case. -/
def meetsCased (t : Text) : Bool :=
  (t.dropWhile fun c => within caseIgnorableRanges c.toNat).head?.any
    fun c => within casedRanges c.toNat

/-- Lower case of a text whose characters before it stand reversed in `before`. -/
def lowerFrom : (before : Text) → Text → Text
  | _, [] => []
  | before, c :: cs =>
    let small :=
      if c = 'Σ' then [if meetsCased before && !meetsCased cs then 'ς' else 'σ']
      else if c = 'İ' then ['i', '\u0307']
      else [lowerChar c]
    small ++ lowerFrom (c :: before) cs

/-- The text in lower case. -/
def lower (t : Text) : Text := lowerFrom [] t

end Synopsis.Text
