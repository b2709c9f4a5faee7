import Synopsis.Text.Word

/-!
# Reading from the front of a text

The small readers from which declaration headers are put together. A reader takes the longest
stretch it can and returns what it read with the rest, or nothing when it cannot start.
-/

namespace Synopsis.Text

/-- The longest non-empty run of characters that satisfy `p`. -/
def run? (p : Char → Bool) (t : Text) : Option (Text × Text) :=
  match t.takeWhile p with
  | [] => none
  | r => some (r, t.dropWhile p)

/-- A start character and the longest run of further characters after it. -/
def nameOf? (start more : Char → Bool) : Text → Option (Text × Text)
  | [] => none
  | c :: cs => if start c then some (c :: cs.takeWhile more, cs.dropWhile more) else none

/-- A name: an ASCII letter or underscore, then word characters. -/
def name? (t : Text) : Option (Text × Text) := nameOf? isNameStart isWord t

/-- A name in which the dollar sign counts as a letter. -/
def dollarName? (t : Text) : Option (Text × Text) := nameOf? isDollarStart isDollarWord t

/-- A non-empty run of word characters. -/
def word? (t : Text) : Option (Text × Text) := run? isWord t

/-- Skips at least one character that satisfies `p`, and all that follow. -/
def skip1? (p : Char → Bool) (t : Text) : Option Text := (run? p t).map Prod.snd

/-- What follows the given keyword and at least one gap character. -/
def keywordBy? (gap : Char → Bool) (word : String) (t : Text) : Option Text :=
  (after? word.toList t).bind (skip1? gap)

/-- What follows the given keyword and at least one blank. -/
def keyword? (word : String) (t : Text) : Option Text := keywordBy? isBlank word t

/-- A run takes at least one character. -/
theorem length_lt_of_run? {p : Char → Bool} {t r rest : Text} (h : run? p t = some (r, rest)) :
    rest.length < t.length := by
  have hlen : (t.takeWhile p).length + (t.dropWhile p).length = t.length := by
    rw [← List.length_append, List.takeWhile_append_dropWhile]
  rw [run?] at h
  split at h
  · cases h
  · next hne =>
    cases h
    have := List.length_pos_iff.2 hne
    omega

/-- A keyword takes at least the blank after it. -/
theorem length_lt_of_keyword? {word : String} {t rest : Text} (h : keyword? word t = some rest) :
    rest.length < t.length := by
  obtain ⟨u, hu, hs⟩ := Option.bind_eq_some_iff.1 h
  obtain ⟨⟨r, rest'⟩, hr, rfl⟩ := Option.map_eq_some_iff.1 hs
  have hrun := length_lt_of_run? hr
  have hlead := congrArg List.length (after?_eq_some.1 hu)
  simp only [List.length_append] at hlead ⊢
  omega

/-- Skips one of the given keywords and the blanks after it, if the text starts with one. -/
def skipKeyword (words : List String) (t : Text) : Text :=
  (words.findSome? (keyword? · t)).getD t

/-- Skips any number of the given keywords, each with the blanks after it. -/
def skipKeywords (words : List String) (t : Text) : Text :=
  match _h : words.findSome? (keyword? · t) with
  | some rest => skipKeywords words rest
  | none => t
termination_by t.length
decreasing_by
  obtain ⟨_, _, hk⟩ := List.exists_of_findSome?_eq_some _h
  exact length_lt_of_keyword? hk

/-- Whether the text starts with the keyword and a gap, and what is then left. -/
def flagBy (gap : Char → Bool) (word : String) (t : Text) : Bool × Text :=
  match keywordBy? gap word t with
  | some rest => (true, rest)
  | none => (false, t)

/-- Whether the text starts with the keyword and a blank, and what is then left. -/
def flag (word : String) (t : Text) : Bool × Text := flagBy isBlank word t

/-- What follows the given word where no word character goes on. -/
def wholeWord? (word : String) (t : Text) : Option Text :=
  (after? word.toList t).filter (notBefore isWord ·)

/-- The text, if it goes on with the given character. -/
def ahead? (c : Char) (t : Text) : Option Text := if t.head? = some c then some t else none

/-- What follows the given character. -/
def char? (c : Char) (t : Text) : Option Text := after? [c] t

/-- A character that was read is gone. -/
theorem length_lt_of_char? {c : Char} {t rest : Text} (h : char? c t = some rest) :
    rest.length < t.length := by
  have hlen := congrArg List.length (after?_eq_some.1 h)
  simp only [List.cons_append, List.nil_append, List.length_cons] at hlen
  omega

end Synopsis.Text
