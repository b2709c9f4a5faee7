import Synopsis.Text.Blank

/-!
# Lines

A file read as text has only line feeds: a carriage return, alone or before a line feed, is one. The
lines of an ignore file end at every character that Unicode knows as a line end.
-/

namespace Synopsis.Text

/-- Turns carriage returns, alone or before a line feed, into line feeds. -/
def unifyNewlines : Text → Text
  | [] => []
  | '\r' :: '\n' :: cs => '\n' :: unifyNewlines cs
  | c :: cs => (if c = '\r' then '\n' else c) :: unifyNewlines cs

/-- The characters that end a line. -/
def isLineEnd (c : Char) : Bool :=
  let n := c.toNat
  (10 ≤ n && n ≤ 13) || (28 ≤ n && n ≤ 30) || n == 0x85 || n == 0x2028 || n == 0x2029

/-- The lines of a text with unified newlines; a line end at the very end opens no further line. -/
def lines (t : Text) : List Text :=
  let ls := t.splitOnP isLineEnd
  if ls.getLast? = some [] then ls.dropLast else ls

end Synopsis.Text
