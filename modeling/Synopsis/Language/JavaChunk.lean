import Synopsis.Nesting.Span

/-!
# Java: literals, groups and chunks

A type body is a row of chunks: a header that a semicolon ends, or a header with the block that
follows it. Literals and parenthesised groups belong to the header they stand in, and a brace inside
a literal never ends a block. `chunks` cuts a body so; text after the last chunk is dropped.
-/

namespace Synopsis.Java

open Text

/-! ## Literals -/

/-- What follows a text block whose opening quotes were just read. -/
def afterTextBlock : Text → Text
  | [] => []
  | ['\\'] => []
  | '\\' :: _ :: cs => afterTextBlock cs
  | '"' :: '"' :: '"' :: cs => cs
  | _ :: cs => afterTextBlock cs

/-- What follows a literal in the given quotes; the end of the line ends it too. -/
def afterQuoted (quote : Char) : Text → Text
  | [] => []
  | ['\\'] => []
  | '\\' :: _ :: cs => afterQuoted quote cs
  | c :: cs => if c = quote || c = '\n' then cs else afterQuoted quote cs

/-- What follows the literal at the front of a text. -/
def afterLiteral : Text → Text
  | [] => []
  | '"' :: '"' :: '"' :: cs => afterTextBlock cs
  | quote :: cs => afterQuoted quote cs

/-- The offset just past the literal at an offset. -/
def literalEnd (t : Text) (start : Nat) : Except NestingFault Nat :=
  if start < t.length then .ok (t.length - (afterLiteral (t.drop start)).length)
  else .error .offsetOutsideText

/-- Whether a character opens a literal. -/
def isQuote (c : Char) : Bool := c == '"' || c == '\''

/-- How many characters after the first the literal at the front of a text takes. -/
def literalTail (t : Text) : Nat := t.length - 1 - (afterLiteral t).length

/-! ## Groups -/

/-- Cuts a group that has `depth` delimiters open, stepping over literals; the first `skip`
    characters belong to one. -/
def groupFrom (opener closer : Char) : (skip : Nat) → (depth : Int) → Text → Text × Text
  | _, _, [] => ([], [])
  | n + 1, d, c :: cs => keep c (groupFrom opener closer n d cs)
  | 0, d, c :: cs =>
    if isQuote c then keep c (groupFrom opener closer (literalTail (c :: cs)) d cs)
    else if c = opener then keep c (groupFrom opener closer 0 (d + 1) cs)
    else if c = closer then
      if d = 1 then ([c], cs) else keep c (groupFrom opener closer 0 (d - 1) cs)
    else keep c (groupFrom opener closer 0 d cs)

/-- The group at the front of a text, where delimiters inside literals do not count. -/
def group (opener closer : Char) (t : Text) : Text × Text := groupFrom opener closer 0 0 t

/-- A group and the text after it are the text. -/
theorem groupFrom_append (opener closer : Char) (n : Nat) (d : Int) (t : Text) :
    (groupFrom opener closer n d t).1 ++ (groupFrom opener closer n d t).2 = t := by
  fun_induction groupFrom opener closer n d t <;> simp_all [keep]

/-! ## Chunks -/

/-- Cuts a header off: all up to a semicolon or brace outside literals and parenthesised groups. -/
def headerFrom : (skip : Nat) → Text → Text × Text
  | _, [] => ([], [])
  | n + 1, c :: cs => keep c (headerFrom n cs)
  | 0, c :: cs =>
    if isQuote c then keep c (headerFrom (literalTail (c :: cs)) cs)
    else if c = '(' then keep c (headerFrom ((group '(' ')' (c :: cs)).1.length - 1) cs)
    else if c = ';' || c = '{' then ([], c :: cs)
    else keep c (headerFrom 0 cs)

/-- A header and the text after it are the text. -/
theorem headerFrom_append (n : Nat) (t : Text) : (headerFrom n t).1 ++ (headerFrom n t).2 = t := by
  fun_induction headerFrom n t <;> simp_all [keep]

/-- A header alone, or a header with the text inside its block. -/
inductive Chunk where
  | statement (header : Text)
  | block (header body : Text)
deriving DecidableEq, Repr

/-- The text inside a block: without its braces, or without the opening one when none closes it. -/
def blockBody (block : Text) : Text :=
  if block.getLast? = some '}' && 1 < block.length then unwrap block else block.tail

/-- The first chunk of a body and what follows it. -/
def nextChunk? (t : Text) : Option (Chunk × Text) :=
  let header := headerFrom 0 t
  match header.2 with
  | ';' :: rest => some (.statement header.1, rest)
  | '{' :: rest =>
    let block := group '{' '}' ('{' :: rest)
    some (.block header.1 (blockBody block.1), block.2)
  | _ => none

/-- The text inside a block is shorter than what the block was cut from. -/
theorem length_blockBody_le (block : Text) : (blockBody block).length ≤ block.length - 1 := by
  rw [blockBody]
  split
  · simp only [unwrap, List.length_dropLast, List.length_tail]
    omega
  · simp

/-- Grouping a text that starts with the opener takes at least that character. -/
theorem length_group_pos {opener closer : Char} (h : isQuote opener = false) (t : Text) :
    0 < (group opener closer (opener :: t)).1.length := by
  simp [group, groupFrom, h, keep]

/-- A chunk takes at least one character, and its body is shorter than the text. -/
theorem length_lt_of_nextChunk? {t rest : Text} {c : Chunk} (h : nextChunk? t = some (c, rest)) :
    rest.length < t.length ∧ ∀ header body, c = .block header body → body.length < t.length := by
  have happ := congrArg List.length (headerFrom_append 0 t)
  rw [nextChunk?] at h
  simp only [List.length_append] at h happ
  split at h
  · next r hr =>
    obtain ⟨rfl, rfl⟩ := Prod.mk.inj (Option.some.inj h)
    rw [hr, List.length_cons] at happ
    exact ⟨by omega, by simp⟩
  · next r hr =>
    obtain ⟨rfl, rfl⟩ := Prod.mk.inj (Option.some.inj h)
    have hgroup := congrArg List.length (groupFrom_append '{' '}' 0 0 ('{' :: r))
    have hpos := @length_group_pos '{' '}' rfl r
    have hbody := length_blockBody_le (group '{' '}' ('{' :: r)).1
    rw [hr, List.length_cons] at happ
    simp only [group, List.length_append, List.length_cons] at hgroup hpos hbody ⊢
    refine ⟨by omega, ?_⟩
    rintro header body he
    cases he
    omega
  · cases h

/-- The chunks of a body, from left to right. -/
def chunks (t : Text) : List Chunk :=
  match _h : nextChunk? t with
  | some (c, rest) => c :: chunks rest
  | none => []
termination_by t.length
decreasing_by exact (length_lt_of_nextChunk? _h).1

/-- The body of a block among the chunks of a text is shorter than the text. -/
theorem length_lt_of_mem_chunks {t header body : Text} (h : .block header body ∈ chunks t) :
    body.length < t.length := by
  fun_induction chunks t with
  | case1 t c rest hnext ih =>
    obtain ⟨hrest, hbody⟩ := length_lt_of_nextChunk? hnext
    rcases List.mem_cons.1 h with rfl | hmem
    · exact hbody header body rfl
    · exact Nat.lt_trans (ih hmem) hrest
  | case2 t hnext => simp at h

end Synopsis.Java
