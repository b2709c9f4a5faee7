import Synopsis.Text.Blank
import Synopsis.Text.WordRanges

/-!
# Word characters

Letters, digits and the underscore in every script. A word boundary lies between a word character
and anything else.
-/

namespace Synopsis.Text

/-- Whether a code point lies in one of the closed ranges. -/
def within (ranges : List (Nat × Nat)) (n : Nat) : Bool :=
  ranges.any fun r => r.1 ≤ n && n ≤ r.2

/-- A letter or numeral of any script, or the underscore. -/
def isWord (c : Char) : Bool :=
  if c.toNat < 128 then c.isAlphanum || c == '_' else within wordRanges c.toNat

/-- The zero of every script that has decimal digits; the other nine follow it. -/
def decimalZeros : List Nat :=
  [48, 1632, 1776, 1984, 2406, 2534, 2662, 2790, 2918, 3046, 3174, 3302, 3430, 3558, 3664, 3792,
    3872, 4160, 4240, 6112, 6160, 6470, 6608, 6784, 6800, 6992, 7088, 7232, 7248, 42528, 43216,
    43264, 43472, 43504, 43600, 44016, 65296, 66720, 68912, 69734, 69872, 69942, 70096, 70384,
    70736, 70864, 71248, 71360, 71472, 71904, 72016, 72784, 73040, 73120, 92768, 92864, 93008,
    120782, 120792, 120802, 120812, 120822, 123200, 123632, 125264, 130032]

/-- A decimal digit of any script. -/
def isDecimal (c : Char) : Bool := decimalZeros.any fun z => z ≤ c.toNat && c.toNat ≤ z + 9

/-- A letter of the ASCII alphabet or the underscore. -/
def isNameStart (c : Char) : Bool := c.isAlpha || c == '_'

/-- A word character or the dollar sign. -/
def isDollarWord (c : Char) : Bool := isWord c || c == '$'

/-- An ASCII letter, the underscore or the dollar sign. -/
def isDollarStart (c : Char) : Bool := isNameStart c || c == '$'

/-- Whether the character just read, if any, is none of `p`. -/
def notAfter (p : Char → Bool) (prev : Option Char) : Bool := !prev.any p

/-- Whether the text goes on with a character outside `p`, or ends. -/
def notBefore (p : Char → Bool) (t : Text) : Bool := !t.head?.any p

/-- Whether the whole text is one name: a start character followed by word characters. -/
def isName : Text → Bool
  | [] => false
  | c :: cs => isNameStart c && cs.all isWord

/-- Whether the whole text is one name in which dollar signs count as letters. -/
def isDollarName : Text → Bool
  | [] => false
  | c :: cs => isDollarStart c && cs.all isDollarWord

end Synopsis.Text
