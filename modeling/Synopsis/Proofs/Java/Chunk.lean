import Synopsis.Language.JavaMember
import Synopsis.Proofs.Nesting.Span

/-!
# Java: bodies and the chunks they are cut into

`Body` says which texts close every brace they open, where braces inside literals do not count. A
block with such a text inside is cut at its own closing brace (`group_block`), a header is cut at the
first semicolon or brace outside its parentheses (`isHeader_of_balanced`), and so the entries of a
type body are those of its first chunk and then those of the rest (`entries_statement`,
`entries_block`).
-/

namespace Synopsis.Java

open Text

/-! ## Literals -/

/-- The rest of a literal after its opening quote: escapes and other characters of one line, then the
    closing quote. -/
inductive QuotedTail (quote : Char) : Text → Prop
  | close : QuotedTail quote [quote]
  | escape (c : Char) {t : Text} : QuotedTail quote t → QuotedTail quote ('\\' :: c :: t)
  | plain {c : Char} {t : Text} : c ≠ '\\' → c ≠ quote → c ≠ '\n' → QuotedTail quote t →
      QuotedTail quote (c :: t)

/-- The rest of a text block after its opening quotes, up to the first three quotes in a row. -/
inductive TextBlockTail : Text → Prop
  | close : TextBlockTail "\"\"\"".toList
  | escape (c : Char) {t : Text} : TextBlockTail t → TextBlockTail ('\\' :: c :: t)
  | plain {c : Char} {t : Text} : c ≠ '\\' → after? "\"\"\"".toList (c :: t) = none →
      TextBlockTail t → TextBlockTail (c :: t)

/-- A text that closes every brace it opens, outside literals. Two quotes before a third one open a
    text block and are no empty literal. -/
inductive Body : Text → Prop
  | nil : Body []
  | plain {c : Char} {t : Text} : isQuote c = false → c ≠ '{' → c ≠ '}' → Body t → Body (c :: t)
  | literal {quote : Char} {s t : Text} : isQuote quote = true → QuotedTail quote s →
      (quote = '"' → s = ['"'] → t.head? ≠ some '"') → Body t → Body (quote :: s ++ t)
  | textBlock {s t : Text} : TextBlockTail s → Body t → Body ("\"\"\"".toList ++ s ++ t)
  | block {s t : Text} : Body s → Body t → Body ('{' :: s ++ '}' :: t)

/-- Whether a character stands for itself in a body. -/
def isPlain (c : Char) : Bool := !(isQuote c || c == '{' || c == '}')

theorem Body.plain_append {s t : Text} (hs : s.all isPlain = true) (ht : Body t) : Body (s ++ t) := by
  induction s with
  | nil => exact ht
  | cons c s ih =>
    obtain ⟨hc, hs⟩ := Bool.and_eq_true_iff.1 hs
    simp only [isPlain, Bool.not_eq_true', Bool.or_eq_false_iff, beq_eq_false_iff_ne] at hc
    exact .plain hc.1.1 hc.1.2 hc.2 (ih hs)

/-- Without literals, what follows a body cannot change it. -/
theorem Body.append {s t : Text} (hs : Body s) (hquote : ∀ c ∈ s, isQuote c = false) (ht : Body t) :
    Body (s ++ t) := by
  induction hs with
  | nil => exact ht
  | plain hc hopen hclose _ ih =>
    exact .plain hc hopen hclose (ih fun x hx => hquote x (List.mem_cons_of_mem _ hx))
  | literal hq _ _ _ => cases hq.symm.trans (hquote _ (by simp))
  | textBlock _ _ => cases hquote '"' (by simp)
  | @block s u hs _ _ ih =>
    have hrest := ih fun x hx => hquote x (by simp [hx])
    have hblock := Body.block hs hrest
    rwa [← List.cons_append, ← List.append_assoc] at hblock

/-- A text of characters among which are no quotes and braces is plain. -/
theorem all_isPlain {p : Char → Bool} (hp : ['"', '\'', '{', '}'].any p = false) {t : Text}
    (h : t.all p = true) : t.all isPlain = true := by
  refine List.all_eq_true.2 fun c hc => ?_
  have hne (x : Char) (hx : x ∈ ['"', '\'', '{', '}']) : c ≠ x := by
    rintro rfl
    exact not_mem_of_all h (not_of_any_eq_false hp c hx) hc
  simp [isPlain, isQuote, hne]

theorem afterQuoted_of_tail {quote : Char} {s : Text} (hquote : isQuote quote = true)
    (h : QuotedTail quote s) (t : Text) : afterQuoted quote (s ++ t) = t := by
  have hne : quote ≠ '\\' := by
    rintro rfl
    cases hquote
  induction h with
  | close =>
    rw [List.singleton_append, afterQuoted]
    · simp
    · simp [hne]
    · simp [hne]
  | escape c _ ih => exact ih
  | plain hc hq hn _ ih =>
    rw [List.cons_append, afterQuoted]
    · simpa [hq, hn] using ih
    · simp [hc]
    · simp [hc]

theorem three_le_length_of_tail {s : Text} (h : TextBlockTail s) : 3 ≤ s.length := by
  induction h with
  | close => exact Nat.le_refl 3
  | escape c _ ih => exact Nat.le_add_right_of_le (Nat.le_add_right_of_le ih)
  | plain _ _ _ ih => exact Nat.le_add_right_of_le ih

theorem afterTextBlock_of_tail {s : Text} (h : TextBlockTail s) (t : Text) :
    afterTextBlock (s ++ t) = t := by
  induction h with
  | close => rfl
  | escape c _ ih => exact ih
  | @plain c s hc hnone htail ih =>
    rw [List.cons_append, afterTextBlock]
    · exact ih
    · simp [hc]
    · simp [hc]
    · rintro rest rfl hs
      -- three quotes here would have ended the block at once
      match s, three_le_length_of_tail htail with
      | a :: b :: s, _ =>
        obtain ⟨rfl, rfl, rfl⟩ : a = '"' ∧ b = '"' ∧ s ++ t = rest := by simpa using hs
        cases hnone

/-- A literal of one line ends at its closing quote. -/
theorem afterLiteral_of_tail {quote : Char} {s t : Text} (hquote : isQuote quote = true)
    (h : QuotedTail quote s) (ht : quote = '"' → s = ['"'] → t.head? ≠ some '"') :
    afterLiteral (quote :: (s ++ t)) = t := by
  rw [afterLiteral]
  · exact afterQuoted_of_tail hquote h t
  · rintro rest rfl hs
    cases h with
    | close =>
      refine ht rfl rfl ?_
      obtain ⟨-, rfl⟩ := List.cons.inj hs
      rfl
    | escape c _ => cases hs
    | plain _ hc _ _ => exact hc (List.cons.inj hs).1

/-! ## Blocks -/

theorem groupFrom_skip (opener closer : Char) (d : Int) (s t : Text) :
    groupFrom opener closer s.length d (s ++ t) =
      (s ++ (groupFrom opener closer 0 d t).1, (groupFrom opener closer 0 d t).2) := by
  induction s with
  | nil => rfl
  | cons c s ih => rw [List.length_cons, List.cons_append, groupFrom, ih]; rfl

/-- A group goes on behind a literal as it went before it. -/
theorem groupFrom_literal (opener closer : Char) (d : Int) {quote : Char} {s t : Text}
    (hquote : isQuote quote = true) (h : afterLiteral (quote :: (s ++ t)) = t) :
    groupFrom opener closer 0 d (quote :: (s ++ t)) = (quote :: s ++ (groupFrom opener closer 0 d t).1,
      (groupFrom opener closer 0 d t).2) := by
  have htail : literalTail (quote :: (s ++ t)) = s.length := by
    rw [literalTail, h, List.length_cons, List.length_append]
    omega
  rw [groupFrom, if_pos hquote, htail, groupFrom_skip]
  rfl

theorem groupFrom_of_depthAfter {opener closer : Char} {d e : Nat} {s : Text}
    (hs : ∀ c ∈ s, isQuote c = false) (hd : 1 ≤ d) (h : depthAfter opener closer d s = some e)
    (t : Text) : groupFrom opener closer 0 d (s ++ t) =
      (s ++ (groupFrom opener closer 0 e t).1, (groupFrom opener closer 0 e t).2) := by
  induction s generalizing d with
  | nil => cases h; rfl
  | cons c s ih =>
    have hstep {d' : Nat} (hd' : 1 ≤ d') (h' : depthAfter opener closer d' s = some e) :=
      ih (fun x hx => hs x (List.mem_cons_of_mem c hx)) hd' h'
    rw [depthAfter] at h
    rw [List.cons_append, groupFrom, hs c List.mem_cons_self, if_neg Bool.false_ne_true]
    split at h
    · next hopen =>
      rw [if_pos hopen, show (d : Int) + 1 = (d + 1 : Nat) from rfl, hstep (by omega) h]
      rfl
    · next hopen =>
      rw [if_neg hopen]
      split at h
      · next hclose =>
        split at h
        · cases h
        · next hone =>
          rw [if_pos hclose, if_neg (by omega), show (d : Int) - 1 = (d - 1 : Nat) by omega,
            hstep (by omega) h]
          rfl
      · next hclose =>
        rw [if_neg hclose, hstep hd h]
        rfl

/-- What is inside a body does not end the group around it. -/
theorem groupFrom_body {s : Text} (h : Body s) {d : Int} (hd : 1 ≤ d) {t : Text}
    (ht : t.head? ≠ some '"') : groupFrom '{' '}' 0 d (s ++ t) =
      (s ++ (groupFrom '{' '}' 0 d t).1, (groupFrom '{' '}' 0 d t).2) := by
  -- The head of `t` matters because two quotes and a third would open a text block.
  induction h generalizing d t with
  | nil => rfl
  | plain hquote hopen hclose _ ih =>
    rw [List.cons_append, groupFrom, hquote, if_neg Bool.false_ne_true, if_neg hopen, if_neg hclose,
      ih hd ht]
    rfl
  | @literal quote s u hquote htail hempty _ ih =>
    have hlit : afterLiteral (quote :: (s ++ (u ++ t))) = u ++ t := by
      refine afterLiteral_of_tail hquote htail fun hq hs => ?_
      cases u with
      | nil => exact ht
      | cons c u => exact hempty hq hs
    rw [List.append_assoc, List.cons_append, groupFrom_literal _ _ _ hquote hlit, ih hd ht]
    simp
  | @textBlock s u htail _ ih =>
    have hlit : afterLiteral ('"' :: ('"' :: '"' :: s ++ (u ++ t))) = u ++ t :=
      afterTextBlock_of_tail htail (u ++ t)
    have hgroup := groupFrom_literal '{' '}' d (show isQuote '"' = true from rfl) hlit
    rw [ih hd ht] at hgroup
    simpa using hgroup
  | @block s u _ _ ihs ihu =>
    have hinner := ihs (d := d + 1) (by omega) (t := '}' :: (u ++ t)) (by simp)
    have hclose : groupFrom '{' '}' 0 (d + 1) ('}' :: (u ++ t)) =
        keep '}' (groupFrom '{' '}' 0 d (u ++ t)) := by
      rw [groupFrom, if_neg (by decide), if_neg (by decide), if_pos rfl, if_neg (by omega),
        Int.add_sub_cancel]
    rw [ihu hd ht] at hclose
    rw [hclose] at hinner
    rw [List.append_assoc, List.cons_append, List.cons_append, groupFrom, if_neg (by decide),
      if_pos rfl, hinner]
    simp [keep]

/-- A block ends at the brace that closes it. -/
theorem group_block {s : Text} (h : Body s) (t : Text) :
    group '{' '}' ('{' :: (s ++ '}' :: t)) = ('{' :: s ++ ['}'], t) := by
  have hbody := groupFrom_body h (d := 1) (Int.le_refl 1) (t := '}' :: t) (by simp)
  rw [group, groupFrom, if_neg (by decide), if_pos rfl, Int.zero_add, hbody, groupFrom]
  simp [isQuote, keep]

theorem blockBody_cons_concat (s : Text) : blockBody ('{' :: s ++ ['}']) = s := by
  rw [blockBody, if_pos (by rw [List.getLast?_concat]; simp), unwrap_cons_concat]

theorem blockBody_concat (u : Text) (x : Char) :
    blockBody ('{' :: (u ++ [x])) = if x = '}' then u else u ++ [x] := by
  by_cases hx : x = '}'
  · rw [if_pos hx, hx]
    exact blockBody_cons_concat u
  · have hlast : ('{' :: (u ++ [x])).getLast? = some x := by
      rw [← List.cons_append, List.getLast?_concat]
    rw [if_neg hx, blockBody, hlast, if_neg (by simp [hx])]
    rfl

/-- A block is unwrapped behind its first brace in the same way whatever else stands there. -/
theorem blockBody_append (p g : Text) :
    blockBody ('{' :: (p ++ ';' :: g)) = p ++ ';' :: blockBody ('{' :: g) := by
  rcases List.eq_nil_or_concat g with rfl | ⟨g, x, hg⟩
  · rw [blockBody_concat, if_neg (by decide)]
    rfl
  · rw [List.concat_eq_append] at hg
    have hlong := blockBody_concat (p ++ ';' :: g) x
    rw [List.append_assoc, List.cons_append] at hlong
    rw [hg, hlong, blockBody_concat]
    split
    · rfl
    · rfl

/-! ## Headers -/

/-- A text that belongs to the header it stands in as a whole. -/
def IsHeader (s : Text) : Prop :=
  ∀ t, headerFrom 0 (s ++ t) = (s ++ (headerFrom 0 t).1, (headerFrom 0 t).2)

theorem IsHeader.append {s t : Text} (hs : IsHeader s) (ht : IsHeader t) : IsHeader (s ++ t) := by
  intro u
  rw [List.append_assoc, hs, ht, List.append_assoc]

/-- Whether a character stands for itself in a header. -/
def isHeaderChar (c : Char) : Bool := !(isQuote c || c == '(' || c == ';' || c == '{')

theorem all_isHeaderChar {p : Char → Bool} (hp : ['"', '\'', '(', ';', '{'].any p = false)
    {t : Text} (h : t.all p = true) : t.all isHeaderChar = true := by
  refine List.all_eq_true.2 fun c hc => ?_
  have hne (x : Char) (hx : x ∈ ['"', '\'', '(', ';', '{']) : c ≠ x := by
    rintro rfl
    exact not_mem_of_all h (not_of_any_eq_false hp c hx) hc
  simp [isHeaderChar, isQuote, hne]

theorem isHeader_of_all {s : Text} (h : s.all isHeaderChar = true) : IsHeader s := by
  intro t
  induction s with
  | nil => rfl
  | cons c s ih =>
    obtain ⟨hc, hs⟩ := Bool.and_eq_true_iff.1 h
    simp only [isHeaderChar, Bool.not_eq_true', Bool.or_eq_false_iff, beq_eq_false_iff_ne] at hc
    obtain ⟨⟨⟨hquote, hopen⟩, hsemi⟩, hbrace⟩ := hc
    rw [List.cons_append, headerFrom, hquote, if_neg Bool.false_ne_true, if_neg hopen,
      if_neg (by simp [hsemi, hbrace]), ih hs]
    rfl

theorem headerFrom_skip (s t : Text) :
    headerFrom s.length (s ++ t) = (s ++ (headerFrom 0 t).1, (headerFrom 0 t).2) := by
  induction s with
  | nil => rfl
  | cons c s ih => rw [List.length_cons, List.cons_append, headerFrom, ih]; rfl

/-- A closed list in parentheses belongs to the header, whatever stands in it. -/
theorem isHeader_group {s : Text} (hs : ∀ c ∈ s, isQuote c = false)
    (h : depthAfter '(' ')' 1 s = some 1) : IsHeader ('(' :: s ++ [')']) := by
  intro t
  have hinner := groupFrom_of_depthAfter hs (Nat.le_refl 1) h (')' :: t)
  have hgroup : group '(' ')' ('(' :: (s ++ ')' :: t)) = ('(' :: s ++ [')'], t) := by
    rw [group, groupFrom, if_neg (by decide), if_pos rfl, Int.zero_add, show (1 : Int) = (1 : Nat) from rfl,
      hinner, groupFrom]
    simp [isQuote, keep]
  have hlen : ('(' :: s ++ [')']).length - 1 = (s ++ [')']).length := by simp
  have hskip := headerFrom_skip (s ++ [')']) t
  rw [List.append_assoc, List.singleton_append] at hskip
  rw [List.append_assoc, List.singleton_append, List.cons_append, headerFrom, if_neg (by decide),
    if_pos rfl, hgroup, hlen, hskip]
  rfl

/-- A text in which every parenthesis is matched belongs to the header it stands in. -/
theorem isHeader_of_balanced {s : Text} (hs : ∀ c ∈ s, isHeaderChar c = true ∨ c = '(')
    (h : depthAfter '(' ')' 1 s = some 1) : IsHeader s := by
  match s with
  | [] => exact isHeader_of_all rfl
  | c :: s =>
    rcases hs c List.mem_cons_self with hc | rfl
    · have hstep : depthAfter '(' ')' 1 s = some 1 := by
        rw [depthAfter] at h
        split at h
        · next hopen => rw [hopen] at hc; cases hc
        · split at h
          · cases h
          · exact h
      have hhead : IsHeader [c] := isHeader_of_all (by simp [hc])
      exact hhead.append (isHeader_of_balanced (fun x hx => hs x (List.mem_cons_of_mem c hx)) hstep)
    · obtain ⟨a, b, rfl, ha, hb⟩ := exists_close_of_open (by decide) h
      have hquote (x : Char) (hx : x ∈ a) : isQuote x = false := by
        rcases hs x (by simp [hx]) with hx | rfl
        · simp only [isHeaderChar, Bool.not_eq_true', Bool.or_eq_false_iff] at hx
          exact hx.1.1.1
        · rfl
      have hrest := isHeader_of_balanced (fun x hx => hs x (by simp [hx])) hb
      have hboth := (isHeader_group hquote ha).append hrest
      rwa [List.append_assoc, List.singleton_append] at hboth
termination_by s.length

/-! ## Chunks and their entries -/

/-- The entries of one chunk of a body. -/
def chunkEntries (owner : Option Text) : Chunk → List Entry
  | .statement header => (owner.bind (member? · header)).toList
  | .block header body => match typeName? header with
    | some name => .type name :: entries (some name) body
    | none => (owner.bind (member? · header)).toList

theorem entries_eq_flatMap (owner : Option Text) (t : Text) :
    entries owner t = (chunks t).flatMap (chunkEntries owner) := by
  rw [entries, List.flatMap_subtype (g := chunkEntries owner), List.unattach_attach]
  rintro (header | ⟨header, body⟩) hmem
  · rfl
  · rfl

theorem entries_of_nextChunk? {owner : Option Text} {t rest : Text} {c : Chunk}
    (h : nextChunk? t = some (c, rest)) :
    entries owner t = chunkEntries owner c ++ entries owner rest := by
  rw [entries_eq_flatMap, chunks, entries_eq_flatMap]
  split
  · next c' rest' h' =>
    obtain ⟨rfl, rfl⟩ := Prod.mk.inj (Option.some.inj (h.symm.trans h'))
    exact List.flatMap_cons
  · next h' => rw [h] at h'; cases h'

theorem entries_of_nextChunk?_eq_none {owner : Option Text} {t : Text} (h : nextChunk? t = none) :
    entries owner t = [] := by
  rw [entries_eq_flatMap, chunks]
  split
  · next h' => rw [h] at h'; cases h'
  · rfl

theorem entries_of_header {owner : Option Text} {t : Text} (h : t.all isHeaderChar = true) :
    entries owner t = [] := by
  have hheader : headerFrom 0 t = (t, []) := by
    have := isHeader_of_all h []
    simpa [headerFrom] using this
  exact entries_of_nextChunk?_eq_none (by simp only [nextChunk?, hheader])

theorem nextChunk?_of_statement {h : Text} (hh : IsHeader h) (t : Text) :
    nextChunk? (h ++ ';' :: t) = some (.statement h, t) := by
  have hheader : headerFrom 0 (h ++ ';' :: t) = (h, ';' :: t) := by
    rw [hh, headerFrom]
    simp [isQuote]
  simp only [nextChunk?, hheader]

theorem nextChunk?_of_block {h b : Text} (hh : IsHeader h) (hb : Body b) (t : Text) :
    nextChunk? (h ++ '{' :: (b ++ '}' :: t)) = some (.block h b, t) := by
  have hheader : headerFrom 0 (h ++ '{' :: (b ++ '}' :: t)) = (h, '{' :: (b ++ '}' :: t)) := by
    rw [hh, headerFrom]
    simp [isQuote]
  simp only [nextChunk?, hheader, group_block hb, blockBody_cons_concat]

theorem entries_statement {h : Text} (hh : IsHeader h) (owner : Option Text) (t : Text) :
    entries owner (h ++ ';' :: t) = chunkEntries owner (.statement h) ++ entries owner t :=
  entries_of_nextChunk? (nextChunk?_of_statement hh t)

theorem entries_block {h b : Text} (hh : IsHeader h) (hb : Body b) (owner : Option Text) (t : Text) :
    entries owner (h ++ '{' :: (b ++ '}' :: t)) =
      chunkEntries owner (.block h b) ++ entries owner t :=
  entries_of_nextChunk? (nextChunk?_of_block hh hb t)

/-- What is written at the beginning of the braces of a type belongs to its body, however the body goes
    on and wherever it ends. -/
theorem exists_body {h name : Text} (hheader : IsHeader h) (hname : typeName? h = some name) (t : Text) :
    ∃ body rest, entries none (h ++ '{' :: t) =
        .type name :: entries (some name) body ++ entries none rest ∧
      ∀ p, Body p → entries none (h ++ '{' :: (p ++ ';' :: t)) =
        .type name :: entries (some name) (p ++ ';' :: body) ++ entries none rest := by
  have hgroup (t : Text) : group '{' '}' ('{' :: t) = keep '{' (groupFrom '{' '}' 0 1 t) := by
    rw [group, groupFrom, if_neg (by decide), if_pos rfl, Int.zero_add]
  have hblock (t : Text) : entries none (h ++ '{' :: t) =
      .type name :: entries (some name) (blockBody ('{' :: (groupFrom '{' '}' 0 1 t).1)) ++
        entries none (groupFrom '{' '}' 0 1 t).2 := by
    have hcut : headerFrom 0 (h ++ '{' :: t) = (h, '{' :: t) := by
      rw [hheader, headerFrom]
      simp [isQuote]
    have hnext : nextChunk? (h ++ '{' :: t) =
        some (.block h (blockBody ('{' :: (groupFrom '{' '}' 0 1 t).1)),
          (groupFrom '{' '}' 0 1 t).2) := by
      simp only [nextChunk?, hcut, hgroup, keep]
    rw [entries_of_nextChunk? hnext, chunkEntries, hname]
  refine ⟨_, _, hblock t, fun p hp => ?_⟩
  have hprefix : groupFrom '{' '}' 0 1 (p ++ ';' :: t) =
      (p ++ ';' :: (groupFrom '{' '}' 0 1 t).1, (groupFrom '{' '}' 0 1 t).2) := by
    rw [groupFrom_body hp (Int.le_refl 1) (by simp), groupFrom]
    simp [isQuote, keep]
  rw [hblock, hprefix, blockBody_append]

end Synopsis.Java
