import Synopsis.Text.Blank

/-!
# Fragments

A fragment is the text of one located declaration. A source yields each fragment once, trimmed, at
the place of its first occurrence.
-/

namespace Synopsis

open Text

/-- The trimmed fragments without blanks and repetitions, in order of first occurrence. -/
def distinct (fragments : List Text) : List Text :=
  ((fragments.map trim).filter (!·.isEmpty)).eraseDups

end Synopsis
