/-!
# Text as a list of code points

Every offset and length of the library counts code points, so a text is the list of its characters
and a position in it is what is left to read. This module holds the cuts and joins that every reader
and printer shares; blanks and word characters come in with their own modules.
-/

namespace Synopsis

/-- A text is the list of its code points. -/
abbrev Text := List Char

namespace Text

/-! ## Cutting -/

/-- What follows `lead` when the text starts with it. -/
def after? : (lead : Text) → Text → Option Text
  | [], t => some t
  | _ :: _, [] => none
  | x :: xs, c :: cs => if x = c then after? xs cs else none

/-- Puts a character in front of the first half of a cut. -/
def keep (c : Char) (cut : Text × Text) : Text × Text := (c :: cut.1, cut.2)

/-- The text before and after the first occurrence of a character. -/
def cutAt? (c : Char) : Text → Option (Text × Text)
  | [] => none
  | x :: xs => if x = c then some ([], xs) else (cutAt? c xs).map (keep x)

/-- The text before and after the first occurrence of `mark`. -/
def cut? (mark : Text) : Text → Option (Text × Text)
  | [] => (after? mark []).map ([], ·)
  | c :: cs => match after? mark (c :: cs) with
    | some rest => some ([], rest)
    | none => (cut? mark cs).map (keep c)

/-- `after?` takes exactly the lead off. -/
theorem after?_eq_some {lead t rest : Text} : after? lead t = some rest ↔ t = lead ++ rest := by
  fun_induction after? lead t with
  | case1 t => simp [eq_comm]
  | case2 x xs => simp
  | case3 x xs cs ih => simpa using ih
  | case4 x xs c cs hne => simp [Ne.symm hne]

/-- The two halves of a cut and the mark between them are the text. -/
theorem eq_of_cut? {mark t head rest : Text} (h : cut? mark t = some (head, rest)) :
    t = head ++ mark ++ rest := by
  induction t generalizing head with
  | nil =>
    obtain ⟨r, hr, he⟩ := Option.map_eq_some_iff.1 h
    cases he
    simpa using after?_eq_some.1 hr
  | cons c cs ih =>
    rw [cut?] at h
    split at h
    · next r hr =>
      cases h
      simpa using after?_eq_some.1 hr
    · obtain ⟨⟨head', rest'⟩, hcut, he⟩ := Option.map_eq_some_iff.1 h
      cases he
      simp [ih hcut]

/-- Everything before the first occurrence of a character, or the whole text. -/
def before (c : Char) (t : Text) : Text := t.takeWhile (· ≠ c)

/-- Everything after the last occurrence of a character, or the whole text. -/
def afterLast (c : Char) (t : Text) : Text := (t.reverse.takeWhile (· ≠ c)).reverse

/-- The text without its first and last character. -/
def unwrap (t : Text) : Text := t.tail.dropLast

/-- Drops the longest tail whose characters all satisfy `p`. -/
def dropTrailing (p : Char → Bool) (t : Text) : Text := (t.reverse.dropWhile p).reverse

/-- The longest tail whose characters all satisfy `p`. -/
def takeTrailing (p : Char → Bool) (t : Text) : Text := (t.reverse.takeWhile p).reverse

/-! ## Presence -/

/-- An empty text counts as an absent one. -/
def nonempty? (t : Text) : Option Text := if t.isEmpty then none else some t

/-- An optional text that is present and not empty. -/
def present? (t : Option Text) : Option Text := t.bind nonempty?

/-- Whether `part` occurs somewhere in the text. -/
def holds (part : Text) (t : Text) : Bool := (cut? part t).isSome

/-! ## Replacing and joining -/

/-- Removes every occurrence of a character. -/
def without (c : Char) (t : Text) : Text := t.filter (· ≠ c)

/-- The pieces with `sep` between neighbours. -/
def join (sep : String) (pieces : List Text) : Text := sep.toList.intercalate pieces

/-! ## Order -/

/-- Lexicographic order by code point; a text comes after its beginnings. -/
def le : Text → Text → Bool
  | [], _ => true
  | _ :: _, [] => false
  | a :: s, b :: t => if a = b then le s t else decide (a.toNat < b.toNat)

/-- The texts in code point order. -/
def sorted (ts : List Text) : List Text := ts.mergeSort le

end Text

end Synopsis
