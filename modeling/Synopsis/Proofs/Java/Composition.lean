import Synopsis.Proofs.Fragment
import Synopsis.Proofs.Java.TypeTree

/-!
# Java: the fragments of two sources in a row

Literals, groups and headers are decided by the text they run through: one that leaves something behind
it ends at the same place whatever is written after the text (`groupFrom_extend`, `headerFrom_extend`).
A source that is cut into chunks to its end (`Complete`) is cut so in front of any text, and the blanks
behind its last chunk do not change what the next header declares (`typeName?_blank_append`). So it has
its fragments to itself (`fragments_append_of_complete`).
-/

namespace Synopsis.Java

open Text

/-- A text that is made up of chunks, each ended by its semicolon or closing brace, and of blanks behind
    the last one. A literal or a group that is never closed would take all that follows it into a header
    with neither. -/
inductive Complete : Text → Prop
  | blank {t : Text} : blank t = true → Complete t
  | statement {t header rest : Text} : headerFrom 0 t = (header, ';' :: rest) → Complete rest →
      Complete t
  | block {t header tail block rest : Text} : headerFrom 0 t = (header, '{' :: tail) →
      group '{' '}' ('{' :: tail) = (block ++ ['}'], rest) → Complete rest → Complete t

/-! ## Literals, groups and headers -/

/-- A character that neither ends the text as an escape nor escapes another one is no escape. -/
theorem ne_escape {c : Char} {cs : Text} (hlast : c = '\\' → cs = [] → False)
    (hescape : ∀ d ds, c = '\\' → cs = d :: ds → False) : c ≠ '\\' := by
  intro hc
  cases cs with
  | nil => exact hlast hc rfl
  | cons d ds => exact hescape d ds hc rfl

theorem afterQuoted_cons {quote c : Char} (hc : c ≠ '\\') (t : Text) : afterQuoted quote (c :: t) =
    if c = quote || c = '\n' then t else afterQuoted quote t := by
  rw [afterQuoted] <;> simp [hc]

theorem afterQuoted_singleton (quote c : Char) : afterQuoted quote [c] = [] := by
  by_cases hc : c = '\\'
  · rw [hc, afterQuoted]
  · rw [afterQuoted]
    · simp [afterQuoted]
    · simp [hc]
    · simp

theorem afterTextBlock_singleton (c : Char) : afterTextBlock [c] = [] := by
  by_cases hc : c = '\\'
  · rw [hc, afterTextBlock]
  · rw [afterTextBlock]
    · rfl
    · simp [hc]
    · simp
    · simp

theorem afterQuoted_extend {quote : Char} {t : Text} (h : afterQuoted quote t ≠ []) (u : Text) :
    afterQuoted quote (t ++ u) = afterQuoted quote t ++ u := by
  fun_induction afterQuoted quote t with
  | case1 => exact absurd rfl h
  | case2 => exact absurd rfl h
  | case3 c cs ih => exact ih h
  | case4 c cs hlast hescape hend =>
    rw [List.cons_append, afterQuoted_cons (ne_escape hlast hescape), if_pos hend]
  | case5 c cs hlast hescape hend ih =>
    rw [List.cons_append, afterQuoted_cons (ne_escape hlast hescape), if_neg hend]
    exact ih h

/-- A text that goes on to open with two quotes opens with both of them, or is too short to. -/
theorem short_or_quotes_of_append {t u rest : Text} (h : t ++ u = '"' :: '"' :: rest) :
    t = [] ∨ (∃ d, t = [d]) ∨ ∃ tail, t = '"' :: '"' :: tail := by
  cases t with
  | nil => exact .inl rfl
  | cons d t =>
    cases t with
    | nil => exact .inr (.inl ⟨d, rfl⟩)
    | cons e t =>
      obtain ⟨rfl, rfl, -⟩ : d = '"' ∧ e = '"' ∧ t ++ u = rest := by simpa using h
      exact .inr (.inr ⟨t, rfl⟩)

theorem afterTextBlock_extend {t : Text} (h : afterTextBlock t ≠ []) (u : Text) :
    afterTextBlock (t ++ u) = afterTextBlock t ++ u := by
  fun_induction afterTextBlock t with
  | case1 => exact absurd rfl h
  | case2 => exact absurd rfl h
  | case3 c cs ih => exact ih h
  | case4 cs => rfl
  | case5 c cs hlast hescape hclose ih =>
    have hc := ne_escape hlast hescape
    rw [List.cons_append, afterTextBlock]
    · exact ih h
    · simp [hc]
    · simp [hc]
    · -- quotes that only the two texts together make up would leave nothing of the first
      rintro rest hquote hs
      obtain rfl | ⟨d, rfl⟩ | ⟨tail, rfl⟩ := short_or_quotes_of_append hs
      · exact h rfl
      · exact h (afterTextBlock_singleton d)
      · exact hclose tail hquote rfl

theorem afterLiteral_extend {t : Text} (h : afterLiteral t ≠ []) (u : Text) :
    afterLiteral (t ++ u) = afterLiteral t ++ u := by
  fun_cases afterLiteral t with
  | case1 => exact absurd rfl h
  | case2 cs => exact afterTextBlock_extend h u
  | case3 quote cs hnot =>
    have hquoted : afterLiteral (quote :: cs) = afterQuoted quote cs := by
      rw [afterLiteral]
      exact hnot
    rw [hquoted] at h
    rw [List.cons_append, afterLiteral]
    · exact afterQuoted_extend h u
    · rintro rest hquote hs
      obtain rfl | ⟨d, rfl⟩ | ⟨tail, rfl⟩ := short_or_quotes_of_append hs
      · exact h rfl
      · exact h (afterQuoted_singleton quote d)
      · exact hnot tail hquote rfl

theorem literalTail_extend {c : Char} {t : Text} (h : afterLiteral (c :: t) ≠ []) (u : Text) :
    literalTail (c :: (t ++ u)) = literalTail (c :: t) := by
  have hafter := afterLiteral_extend h u
  rw [List.cons_append] at hafter
  rw [literalTail, hafter, literalTail]
  simp only [List.length_cons, List.length_append]
  omega

theorem groupFrom_extend {opener closer : Char} {n : Nat} {d : Int} {t : Text}
    (h : (groupFrom opener closer n d t).2 ≠ []) (u : Text) :
    groupFrom opener closer n d (t ++ u) =
      ((groupFrom opener closer n d t).1, (groupFrom opener closer n d t).2 ++ u) := by
  fun_induction groupFrom opener closer n d t with
  | case1 => exact absurd rfl h
  | case2 d n c cs ih =>
    rw [List.cons_append, groupFrom]
    exact congrArg (keep c) (ih h)
  | case3 d c cs hquote ih =>
    -- A literal that is never closed would take the group to the end of the text.
    have hliteral : afterLiteral (c :: cs) ≠ [] := by
      intro hnil
      have hskip := groupFrom_skip opener closer d cs []
      rw [List.append_nil] at hskip
      rw [literalTail, hnil, List.length_cons, List.length_nil, Nat.sub_zero, Nat.add_sub_cancel,
        hskip] at h
      exact h rfl
    rw [List.cons_append, groupFrom, if_pos hquote, literalTail_extend hliteral]
    exact congrArg (keep c) (ih h)
  | case4 d cs hquote ih =>
    rw [List.cons_append, groupFrom, if_neg hquote, if_pos rfl]
    exact congrArg (keep opener) (ih h)
  | case5 cs hquote hopen =>
    rw [List.cons_append, groupFrom, if_neg hquote, if_neg hopen, if_pos rfl, if_pos rfl]
  | case6 d cs hquote hopen hd ih =>
    rw [List.cons_append, groupFrom, if_neg hquote, if_neg hopen, if_pos rfl, if_neg hd]
    exact congrArg (keep closer) (ih h)
  | case7 d c cs hquote hopen hclose ih =>
    rw [List.cons_append, groupFrom, if_neg hquote, if_neg hopen, if_neg hclose]
    exact congrArg (keep c) (ih h)

theorem headerFrom_extend {n : Nat} {t : Text} (h : (headerFrom n t).2 ≠ []) (u : Text) :
    headerFrom n (t ++ u) = ((headerFrom n t).1, (headerFrom n t).2 ++ u) := by
  -- What takes a header to the end of the text leaves nothing of it.
  have hskip (t : Text) : (headerFrom t.length t).2 = [] := by
    have := headerFrom_skip t []
    rw [List.append_nil] at this
    rw [this]
    rfl
  fun_induction headerFrom n t with
  | case1 => exact absurd rfl h
  | case2 n c cs ih =>
    rw [List.cons_append, headerFrom]
    exact congrArg (keep c) (ih h)
  | case3 c cs hquote ih =>
    have hliteral : afterLiteral (c :: cs) ≠ [] := by
      intro hnil
      rw [literalTail, hnil, List.length_cons, List.length_nil, Nat.sub_zero, Nat.add_sub_cancel] at h
      exact h (hskip cs)
    rw [List.cons_append, headerFrom, if_pos hquote, literalTail_extend hliteral]
    exact congrArg (keep c) (ih h)
  | case4 cs hquote ih =>
    have hgroup : (group '(' ')' ('(' :: cs)).2 ≠ [] := by
      intro hnil
      have hhalves : (group '(' ')' ('(' :: cs)).1 ++ (group '(' ')' ('(' :: cs)).2 = '(' :: cs :=
        groupFrom_append '(' ')' 0 0 ('(' :: cs)
      rw [hnil, List.append_nil] at hhalves
      rw [hhalves, List.length_cons, Nat.add_sub_cancel] at h
      exact h (hskip cs)
    have hlong := groupFrom_extend hgroup u
    rw [List.cons_append] at hlong ⊢
    rw [headerFrom, if_neg hquote, if_pos rfl, group, hlong]
    exact congrArg (keep '(') (ih h)
  | case5 c cs hquote hopen hstop =>
    rw [List.cons_append, headerFrom, if_neg hquote, if_neg hopen, if_pos hstop]
  | case6 c cs hquote hopen hstop ih =>
    rw [List.cons_append, headerFrom, if_neg hquote, if_neg hopen, if_neg hstop]
    exact congrArg (keep c) (ih h)

/-! ## Blanks in front -/

theorem stripAnnotations_blank_append {g : Text} (hg : blank g = true) (t : Text) :
    stripAnnotations (g ++ t) = g ++ stripAnnotations t :=
  stripAnnotations_append (not_mem_of_all hg (by decide)) t

/-- No type keyword starts with a blank, and a blank before one is no part of a word. -/
theorem firstSite?_typeAt?_blank_append {g : Text} (hg : blank g = true) (t : Text) :
    (firstSite? typeAt? (g ++ t)).map (·.found) = (firstSite? typeAt? t).map (·.found) := by
  have hnone (a b : Text) (hb : b ≠ []) (hab : g = a ++ b) :
      typeAt? (.between ([] ++ a) (b ++ t)) = none := by
    rw [Option.eq_none_iff_forall_not_mem]
    rintro ⟨name, rest⟩ hread
    obtain ⟨-, w, hw, d, u, -, -, hword⟩ := exists_word_of_typeAt? hread
    obtain ⟨hne, hsolid⟩ := solid_of_typeWord w hw
    obtain ⟨c, b, rfl⟩ := List.exists_cons_of_ne_nil hb
    obtain ⟨x, v, hx⟩ := List.exists_cons_of_ne_nil hne
    rw [hx, List.cons_append, List.cons_append] at hword
    have hc : isBlank c = true := List.all_eq_true.1 hg c (by simp [hab])
    rw [(List.cons.inj hword).1, hsolid x (by simp [hx])] at hc
    cases hc
  have hsites := sitesFrom_append hnone
  have hoffset (p : Option Char) (k k' : Nat) (t : Text) : typeAt? ⟨p, k, t⟩ = typeAt? ⟨p, k', t⟩ := rfl
  have hprev (k : Nat) (t : Text) : typeAt? ⟨g.getLast?, k, t⟩ = typeAt? ⟨none, k, t⟩ := by
    have hstart : (Place.mk g.getLast? k t).isWordStart = true := by
      cases hlast : g.getLast? with
      | none => rfl
      | some c =>
        have hc : isBlank c = true := List.all_eq_true.1 hg c (List.mem_of_getLast? hlast)
        simp [Place.isWordStart, notAfter, isWord_of_blank hc]
    rw [typeAt?, typeAt?, if_pos hstart]
    rfl
  rw [firstSite?, sites, firstSite?, sites, ← List.head?_map, ← List.head?_map]
  rw [show sitesFrom typeAt? 0 none 0 (g ++ t) = _ from hsites]
  exact congrArg _ (map_found_sitesFrom hoffset hprev 0 _ 0 t)

theorem typeName?_blank_append {g : Text} (hg : blank g = true) (h : Text) :
    typeName? (g ++ h) = typeName? h := by
  have hbefore (t : Text) : before '(' (g ++ t) = g ++ before '(' t := by
    refine List.takeWhile_append_of_pos fun c hc => decide_eq_true ?_
    exact ne_of_blank (List.all_eq_true.1 hg c hc) (by decide)
  have hequals (t : Text) : (g ++ t).contains '=' = t.contains '=' := by
    have hfree : '=' ∉ g := not_mem_of_all hg rfl
    simp [hfree]
  unfold typeName?
  simp only [stripAnnotations_blank_append hg, hbefore, hequals, firstSite?_typeAt?_blank_append hg]

/-- A chunk with a text in front of its header. -/
def Chunk.withLead (g : Text) : Chunk → Chunk
  | .statement header => .statement (g ++ header)
  | .block header body => .block (g ++ header) body

theorem nextChunk?_of_isHeader {g : Text} (hg : IsHeader g) (t : Text) :
    nextChunk? (g ++ t) = (nextChunk? t).map fun next => (next.1.withLead g, next.2) := by
  unfold nextChunk?
  rw [hg t]
  simp only
  split <;> rfl

theorem chunkEntries_withLead {g : Text} (hg : blank g = true) (c : Chunk) :
    chunkEntries none (c.withLead g) = chunkEntries none c := by
  cases c with
  | statement header => rfl
  | block header body =>
    simp only [Chunk.withLead, chunkEntries, typeName?_blank_append hg]
    rfl

/-- Blanks in front of a source belong to the header of its first chunk and change nothing. -/
theorem entries_blank_append {g : Text} (hg : blank g = true) (t : Text) :
    entries none (g ++ t) = entries none t := by
  have hnext := nextChunk?_of_isHeader (isHeader_of_all (all_isHeaderChar_of_blank hg)) t
  cases h : nextChunk? t with
  | none =>
    rw [h] at hnext
    rw [entries_of_nextChunk?_eq_none hnext, entries_of_nextChunk?_eq_none h]
  | some next =>
    rw [h] at hnext
    rw [entries_of_nextChunk? hnext, entries_of_nextChunk? h, chunkEntries_withLead hg]

/-! ## Sources in a row -/

theorem nextChunk?_statement {t header rest : Text} (h : headerFrom 0 t = (header, ';' :: rest)) :
    nextChunk? t = some (.statement header, rest) := by
  simp only [nextChunk?, h]

theorem nextChunk?_block {t header tail block rest : Text} (h : headerFrom 0 t = (header, '{' :: tail))
    (hgroup : group '{' '}' ('{' :: tail) = (block, rest)) :
    nextChunk? t = some (.block header (blockBody block), rest) := by
  simp only [nextChunk?, h, hgroup]

theorem entries_append {s : Text} (h : Complete s) (hs : s.getLast? = some '\n') (t : Text) :
    entries none (s ++ t) = entries none s ++ entries none t := by
  induction h with
  | blank hblank =>
    rw [entries_blank_append hblank, entries_of_header (all_isHeaderChar_of_blank hblank)]
    rfl
  | @statement s header rest hheader _ ih =>
    have hlong : headerFrom 0 (s ++ t) = (header, ';' :: (rest ++ t)) := by
      rw [headerFrom_extend (by rw [hheader]; simp), hheader]
      rfl
    have hlast : rest.getLast? = some '\n' := by
      have hcut := headerFrom_append 0 s
      rw [hheader] at hcut
      exact getLast?_behind (by decide) hcut hs
    rw [entries_of_nextChunk? (nextChunk?_statement hlong),
      entries_of_nextChunk? (nextChunk?_statement hheader), ih hlast, List.append_assoc]
  | @block s header tail block rest hheader hgroup _ ih =>
    have hlast : rest.getLast? = some '\n' := by
      have hcut := headerFrom_append 0 s
      have hhalves : (group '{' '}' ('{' :: tail)).1 ++ (group '{' '}' ('{' :: tail)).2 = '{' :: tail :=
        groupFrom_append '{' '}' 0 0 ('{' :: tail)
      rw [hgroup] at hhalves
      rw [hheader, ← hhalves] at hcut
      refine getLast?_behind (a := header ++ block) (c := '}') (by decide) ?_ hs
      simpa using hcut
    have hrest : rest ≠ [] := by
      rintro rfl
      cases hlast
    have hlong : headerFrom 0 (s ++ t) = (header, '{' :: (tail ++ t)) := by
      rw [headerFrom_extend (by rw [hheader]; simp), hheader]
      rfl
    have hgroup' : group '{' '}' ('{' :: (tail ++ t)) = (block ++ ['}'], rest ++ t) := by
      unfold group at hgroup ⊢
      rw [← List.cons_append, groupFrom_extend (by rw [hgroup]; exact hrest), hgroup]
    rw [entries_of_nextChunk? (nextChunk?_block hlong hgroup'),
      entries_of_nextChunk? (nextChunk?_block hheader hgroup), ih hlast, List.append_assoc]

/-- The fragments of a source that leaves no comment and no chunk open are found whatever follows it, and
    what follows it yields its own. -/
theorem fragments_append_of_complete {a : Text} (hline : a.getLast? = some '\n')
    (hblock : ¬ "/*".toList <:+: CommentStyle.slashes.strip a)
    (hcomplete : Complete (CommentStyle.slashes.strip a)) (b : Text) :
    fragments (a ++ b) = distinct (fragments a ++ fragments b) := by
  have hlast : ∀ c ∈ a.getLast?, c = '\n' := by
    rw [hline]
    simp
  have hentries := entries_append hcomplete (CommentStyle.getLast?_strip_slashes hline)
    (CommentStyle.slashes.strip b)
  unfold fragments
  rw [CommentStyle.strip_slashes_lines hlast hblock, hentries, List.map_append, distinct_append]

/-- A type, and a field whose value holds a brace in quotes. -/
def shapeSource : Text :=
  "/* shapes */class Shape \x7b int area() \x7b return 1; \x7d \x7d\nchar c = f('\x7b');\n".toList

theorem complete_shapeSource : Complete (CommentStyle.slashes.strip shapeSource) := by
  have htype : headerFrom 0 (CommentStyle.slashes.strip shapeSource) = ("class Shape ".toList,
      '{' :: " int area() \x7b return 1; \x7d \x7d\nchar c = f('\x7b');\n".toList) := by
    decide +kernel
  have hblock : group '{' '}'
      ('{' :: " int area() \x7b return 1; \x7d \x7d\nchar c = f('\x7b');\n".toList) =
      ("\x7b int area() \x7b return 1; \x7d ".toList ++ ['}'], "\nchar c = f('\x7b');\n".toList) := by
    decide +kernel
  have hfield : headerFrom 0 "\nchar c = f('\x7b');\n".toList =
      ("\nchar c = f('\x7b')".toList, ';' :: ['\n']) := by
    decide +kernel
  exact .block htype hblock (.statement hfield (.blank rfl))

/-- The type and its method are found in front of any text. -/
theorem fragments_append_of_complete_shapeSource :
    Complete (CommentStyle.slashes.strip shapeSource) ∧
      ∀ b, fragments (shapeSource ++ b) =
        distinct (["class Shape".toList, "int area() @class:Shape".toList] ++ fragments b) := by
  have hfound : fragments shapeSource =
      ["class Shape".toList, "int area() @class:Shape".toList] := by
    decide +kernel
  refine ⟨complete_shapeSource, ?_⟩
  intro b
  rw [fragments_append_of_complete rfl (by decide +kernel) complete_shapeSource b, hfound]

end Synopsis.Java
