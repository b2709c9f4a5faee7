import Synopsis.Text.Basic

/-!
# Blanks

The blank characters, and what depends on them: trimming, splitting into words and writing a text on
one line with single spaces.
-/

namespace Synopsis.Text

/-- White space: tab to carriage return, the four separators before the space, the space, next line
    and no-break space, and the space and line separators of the general punctuation. -/
def isBlank (c : Char) : Bool :=
  let n := c.toNat
  (9 ≤ n && n ≤ 13) || (28 ≤ n && n ≤ 32) || n == 0x85 || n == 0xA0 || n == 0x1680 ||
    (0x2000 ≤ n && n ≤ 0x200A) || n == 0x2028 || n == 0x2029 || n == 0x202F || n == 0x205F ||
    n == 0x3000

/-- Tab or space: what may stand before a declaration on its own line. -/
def isIndent (c : Char) : Bool := c == ' ' || c == '\t'

/-- Drops leading blanks. -/
def trimStart (t : Text) : Text := t.dropWhile isBlank

/-- Trimming does not lengthen a text. -/
theorem length_trimStart_le (t : Text) : (trimStart t).length ≤ t.length :=
  (List.dropWhile_sublist _).length_le

/-- Drops trailing blanks. -/
def trimEnd (t : Text) : Text := dropTrailing isBlank t

/-- Drops leading and trailing blanks. -/
def trim (t : Text) : Text := trimEnd (trimStart t)

/-- A text with no character but blanks. -/
def blank (t : Text) : Bool := t.all isBlank

/-- The maximal runs without blanks, in order. -/
def words (t : Text) : List Text := (t.splitOnP isBlank).filter (!·.isEmpty)

/-- The words of a text with one space between neighbours. -/
def collapse (t : Text) : Text := join " " (words t)

/-- The first word and the trimmed start of what follows it; nothing follows a lone word. -/
def firstWord? (t : Text) : Option (Text × Option Text) :=
  match trimStart t with
  | [] => none
  | u =>
    let rest := trimStart (u.dropWhile (!isBlank ·))
    some (u.takeWhile (!isBlank ·), nonempty? rest)

/-- The last word and the trimmed end of what precedes it; nothing precedes a lone word. -/
def lastWord? (t : Text) : Option (Option Text × Text) :=
  match trimEnd t with
  | [] => none
  | u =>
    let head := trimEnd (dropTrailing (!isBlank ·) u)
    some (nonempty? head, takeTrailing (!isBlank ·) u)

end Synopsis.Text
