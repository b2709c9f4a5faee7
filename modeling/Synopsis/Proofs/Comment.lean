import Synopsis.Comment
import Synopsis.Proofs.Text.Reader

/-!
# What the removal of comments leaves

A text without comment markers is left as it stands (`strip_slashes_eq_self`). Lines that leave no block
open are stripped apart from what follows them (`strip_slashes_lines`), and without markers they stay
as they are (`strip_slashes_append`). In the styles that are made of slashes, stars and hash signs, what
is left holds no comment (`commentFree_strip`), so that removal has nothing to do a second time
(`strip_strip`). An opener may be left over, but never with its closer behind it (`blockFree_strip`): the
two characters of a marker do not come together by what was between them, since a comment starts with a
slash, which would have made a marker of its own, or ends in front of a line end.
-/

namespace Synopsis.CommentStyle

open Text

theorem strip_eq_self {s : CommentStyle} {t : Text}
    (h : ∀ u, u <:+ t → s.afterComment? u = none) : s.strip t = t := by
  rw [strip]
  induction t with
  | nil => rfl
  | cons c t ih =>
    rw [stripFrom, h (c :: t) (List.suffix_refl _)]
    exact congrArg (c :: ·) (ih fun u hu => h u (hu.trans (List.suffix_cons c t)))

theorem stripFrom_length (s : CommentStyle) (u t : Text) :
    s.stripFrom u.length (u ++ t) = s.strip t := by
  induction u with
  | nil => rfl
  | cons c u ih => rw [List.length_cons, List.cons_append, stripFrom, ih]

theorem strip_of_comment {s : CommentStyle} {c : Char} {t rest : Text}
    (h : s.afterComment? (c :: t) = some rest) (hrest : rest <:+ t) :
    s.strip (c :: t) = s.strip rest := by
  obtain ⟨u, rfl⟩ := hrest
  rw [strip, stripFrom, h]
  simp only [List.length_append, Nat.add_sub_cancel]
  exact stripFrom_length s u rest

theorem strip_of_no_comment {s : CommentStyle} {c : Char} {t : Text}
    (h : s.afterComment? (c :: t) = none) : s.strip (c :: t) = c :: s.strip t := by
  rw [strip, stripFrom, h]
  rfl

theorem after?_eq_none_of_not_infix {lead t u : Text} (h : ¬ lead <:+: t) (hu : u <:+ t) :
    after? lead u = none := by
  cases hafter : after? lead u with
  | none => rfl
  | some rest =>
    rw [after?_eq_some] at hafter
    refine absurd ?_ h
    exact (hafter ▸ List.prefix_append lead rest).isInfix.trans hu.isInfix

theorem mem_of_mem_strip {s : CommentStyle} {t : Text} {c : Char} (h : c ∈ s.strip t) : c ∈ t := by
  rw [strip] at h
  generalize 0 = n at h
  fun_induction stripFrom s n t with
  | case1 => cases h
  | case2 n x t ih => exact List.mem_cons_of_mem x (ih h)
  | case3 x t rest hcomment ih => exact List.mem_cons_of_mem x (ih h)
  | case4 x t hcomment ih =>
    rcases List.mem_cons.1 h with rfl | h
    · exact List.mem_cons_self
    · exact List.mem_cons_of_mem x (ih h)

/-! ## Styles without comments in the text -/

theorem afterComment?_slashes_eq_none {t : Text} (hblock : after? "/*".toList t = none)
    (hline : after? "//".toList t = none) : slashes.afterComment? t = none := by
  simp only [afterComment?, slashes, List.findSome?_cons, List.findSome?_nil, afterBlock?, afterLine?,
    hblock, hline]
  rfl

theorem strip_slashes_eq_self {t : Text} (hblock : ¬ "/*".toList <:+: t)
    (hline : ¬ "//".toList <:+: t) : slashes.strip t = t := by
  refine strip_eq_self fun u hu => ?_
  have hopen := after?_eq_none_of_not_infix hblock hu
  have hslashes := after?_eq_none_of_not_infix hline hu
  exact afterComment?_slashes_eq_none hopen hslashes

theorem strip_hash_eq_self {t : Text} (h : '#' ∉ t) : hash.strip t = t := by
  refine strip_eq_self fun u hu => ?_
  have hmarker : after? "#".toList u = none := by
    refine after?_eq_none_of_not_infix (fun hinfix => h ?_) hu
    exact hinfix.subset List.mem_cons_self
  simp only [afterComment?, hash, List.findSome?_nil, List.findSome?_cons, afterLine?, hmarker]
  rfl

theorem strip_slashes_cons {c : Char} (hc : c ≠ '/') (t : Text) :
    slashes.strip (c :: t) = c :: slashes.strip t := by
  have hnone (x : Char) : after? ['/', x] (c :: t) = none := by
    rw [after?, if_neg (Ne.symm hc)]
  exact strip_of_no_comment (afterComment?_slashes_eq_none (hnone '*') (hnone '/'))

/-- Every marker begins with a slash. -/
theorem strip_slashes_append_of_not_mem {s : Text} (hs : '/' ∉ s) (t : Text) :
    slashes.strip (s ++ t) = s ++ slashes.strip t := by
  induction s with
  | nil => rfl
  | cons c s ih =>
    simp only [List.mem_cons, not_or] at hs
    rw [List.cons_append, strip_slashes_cons (Ne.symm hs.1), ih hs.2, List.cons_append]

/-- Text without markers is kept in front of a character that no marker ends in. -/
theorem strip_slashes_append_cons {s : Text} (hblock : ¬ "/*".toList <:+: s)
    (hline : ¬ "//".toList <:+: s) {c : Char} (hslash : c ≠ '/') (hstar : c ≠ '*') (t : Text) :
    slashes.strip (s ++ c :: t) = s ++ c :: slashes.strip t := by
  induction s with
  | nil => exact strip_slashes_cons hslash t
  | cons x s ih =>
    have hnone {m : Char} (hm : c ≠ m) (h : ¬ ['/', m] <:+: x :: s) :
        after? ['/', m] (x :: (s ++ c :: t)) = none := by
      cases hafter : after? ['/', m] (x :: (s ++ c :: t)) with
      | none => rfl
      | some rest =>
        have hcut := after?_eq_some.1 hafter
        cases s with
        | nil => simp [hm] at hcut
        | cons y s =>
          simp only [List.cons_append, List.cons.injEq] at hcut
          obtain ⟨rfl, rfl, -⟩ := hcut
          exact absurd (List.prefix_append ['/', y] s).isInfix h
    have htail {m : Text} (h : ¬ m <:+: x :: s) : ¬ m <:+: s :=
      fun hs => h (hs.trans (List.suffix_cons x s).isInfix)
    rw [List.cons_append, strip_of_no_comment
      (afterComment?_slashes_eq_none (hnone hstar hblock) (hnone hslash hline)),
      ih (htail hblock) (htail hline)]
    rfl

/-! ## Line by line -/

theorem eq_append_of_afterLine? {t rest : Text} {line : LineMarker}
    (h : afterLine? t line = some rest) :
    ∃ body, t = line.marker ++ body ∧ rest = body.dropWhile (· ≠ '\n') := by
  rw [afterLine?] at h
  obtain ⟨body, hbody, h⟩ := Option.bind_eq_some_iff.1 h
  split at h
  · cases h
  · exact ⟨body, after?_eq_some.1 hbody, (Option.some.inj h).symm⟩

theorem eq_append_of_afterBlock? {t rest : Text} {block : Text × Text}
    (h : afterBlock? t block = some rest) :
    ∃ inside, t = block.1 ++ (inside ++ block.2 ++ rest) := by
  rw [afterBlock?] at h
  obtain ⟨body, hbody, h⟩ := Option.bind_eq_some_iff.1 h
  obtain ⟨⟨inside, rest'⟩, hcut, h⟩ := Option.bind_eq_some_iff.1 h
  obtain rfl := Option.some.inj h
  exact ⟨inside, by rw [after?_eq_some.1 hbody, eq_of_cut? hcut]⟩

/-- A block comment takes at least the character it starts with. -/
theorem suffix_of_afterBlock? {c d : Char} {t rest : Text} {block : Text × Text}
    (h : afterBlock? (c :: t) block = some rest) (hd : block.1.head? = some d) : c = d ∧ rest <:+ t := by
  obtain ⟨inside, ht⟩ := eq_append_of_afterBlock? h
  obtain ⟨opener, hopener⟩ := List.head?_eq_some_iff.1 hd
  rw [hopener, List.cons_append] at ht
  obtain ⟨rfl, rfl⟩ := List.cons.inj ht
  exact ⟨rfl, (List.suffix_append _ rest).trans (List.suffix_append opener _)⟩

/-- A line comment takes at least the character it starts with. -/
theorem suffix_of_afterLine? {c d : Char} {t rest : Text} {line : LineMarker}
    (h : afterLine? (c :: t) line = some rest) (hd : line.marker.head? = some d) :
    c = d ∧ rest <:+ t := by
  obtain ⟨body, ht, rfl⟩ := eq_append_of_afterLine? h
  obtain ⟨marker, hmarker⟩ := List.head?_eq_some_iff.1 hd
  rw [hmarker, List.cons_append] at ht
  obtain ⟨rfl, rfl⟩ := List.cons.inj ht
  exact ⟨rfl, (List.dropWhile_suffix _).trans (List.suffix_append marker body)⟩

theorem afterComment?_slashes (t : Text) : slashes.afterComment? t =
    (afterBlock? t ("/*".toList, "*/".toList)).or (afterLine? t ⟨"//".toList, none⟩) := by
  simp only [afterComment?, slashes, List.findSome?_cons, List.findSome?_nil]
  cases afterBlock? t ("/*".toList, "*/".toList) <;> cases afterLine? t ⟨"//".toList, none⟩ <;> rfl

theorem afterBlock?_append {t rest : Text} {block : Text × Text} (h : afterBlock? t block = some rest)
    (u : Text) : afterBlock? (t ++ u) block = some (rest ++ u) := by
  rw [afterBlock?] at h ⊢
  obtain ⟨body, hbody, h⟩ := Option.bind_eq_some_iff.1 h
  obtain ⟨⟨inside, rest'⟩, hcut, h⟩ := Option.bind_eq_some_iff.1 h
  obtain rfl := Option.some.inj h
  rw [after?_eq_some.1 hbody, List.append_assoc, after?_append]
  simp only [Option.bind_eq_bind, Option.bind_some, cut?_append hcut]
  rfl

/-- A line comment of a text that ends in a line end ends in the text. -/
theorem afterLine?_append {t : Text} (ht : t.getLast? = some '\n') {line : LineMarker}
    (hmarker : '\n' ∉ line.marker) (hexception : line.exception = none) (u : Text) :
    afterLine? (t ++ u) line = (afterLine? t line).map (· ++ u) := by
  rw [afterLine?, afterLine?, after?_append_of_getLast? ht hmarker]
  cases hbody : after? line.marker t with
  | none => rfl
  | some body =>
    have hmem : '\n' ∈ body := by
      have hmem := List.mem_of_getLast? ht
      rw [after?_eq_some.1 hbody] at hmem
      exact (List.mem_append.1 hmem).resolve_left hmarker
    obtain ⟨a, b, rfl⟩ := List.append_of_mem hmem
    have hstop (v : Text) := dropWhile_append_cons (p := fun c => decide (c ≠ '\n')) (c := '\n') rfl a v
    simp only [Option.map_some, Option.bind_eq_bind, Option.bind_some, hexception, Option.any_none,
      Bool.false_eq_true, if_false, List.append_assoc, List.cons_append, hstop]

theorem suffix_of_afterComment? {c : Char} {t rest : Text}
    (h : slashes.afterComment? (c :: t) = some rest) : rest <:+ t := by
  rw [afterComment?_slashes, Option.or_eq_some_iff] at h
  rcases h with h | ⟨-, h⟩
  · exact (suffix_of_afterBlock? h rfl).2
  · exact (suffix_of_afterLine? h rfl).2

/-- A text that ends in a line end and starts no block without closing it has its comment to itself. -/
theorem afterComment?_slashes_append {t : Text} (ht : t.getLast? = some '\n')
    (hopen : slashes.afterComment? t = none → after? "/*".toList t = none) (u : Text) :
    slashes.afterComment? (t ++ u) = (slashes.afterComment? t).map (· ++ u) := by
  have hline : afterLine? (t ++ u) ⟨"//".toList, none⟩ = (afterLine? t _).map (· ++ u) :=
    afterLine?_append ht (by decide) rfl u
  rw [afterComment?_slashes, hline]
  rw [afterComment?_slashes] at hopen ⊢
  cases hblock : afterBlock? t ("/*".toList, "*/".toList) with
  | some rest => rw [afterBlock?_append hblock, Option.some_or, Option.some_or, Option.map_some]
  | none =>
    rw [hblock, Option.none_or] at hopen
    rw [Option.none_or]
    have hlong : afterBlock? (t ++ u) ("/*".toList, "*/".toList) =
        (after? "/*".toList (t ++ u)).bind fun body => (cut? "*/".toList body).bind fun c => some c.2 := rfl
    rw [hlong, after?_append_of_getLast? ht (by decide)]
    cases hafter : after? "/*".toList t with
    | none => rfl
    | some body =>
      -- a block is no line comment, so the opener would have to be closed
      rw [after?_eq_some.1 hafter] at hopen
      cases hafter.symm.trans (after?_eq_some.1 hafter ▸ hopen rfl)

/-- Comments are removed line by line: where no block is left open, a text that ends in a line end is
    stripped as if nothing followed it, and what follows it as if nothing stood before. -/
theorem strip_slashes_lines {s : Text} (hs : ∀ c ∈ s.getLast?, c = '\n')
    (hblock : ¬ "/*".toList <:+: slashes.strip s) (t : Text) :
    slashes.strip (s ++ t) = slashes.strip s ++ slashes.strip t := by
  -- A comment is removed as a whole, so the induction is on the length of what is left to read.
  induction hn : s.length using Nat.strongRecOn generalizing s with
  | ind n ih =>
    subst hn
    cases s with
    | nil => rfl
    | cons c s =>
      have hend : (c :: s).getLast? = some '\n' := by
        rw [List.getLast?_eq_some_getLast (List.cons_ne_nil c s)] at hs ⊢
        rw [hs _ rfl]
      have hsuffix {r : Text} (hr : r <:+ s) : ∀ d ∈ r.getLast?, d = '\n' := by
        intro d hd
        obtain ⟨u, hu⟩ := hr.trans (List.suffix_cons c s)
        rw [← hu, List.getLast?_append, Option.mem_def.1 hd, Option.some_or] at hend
        exact Option.some.inj hend
      have hopen (hnone : slashes.afterComment? (c :: s) = none) : after? "/*".toList (c :: s) = none := by
        cases hafter : after? "/*".toList (c :: s) with
        | none => rfl
        | some body =>
          rw [strip_of_no_comment hnone] at hblock
          obtain ⟨rfl, rfl⟩ : c = '/' ∧ s = '*' :: body := List.cons.inj (after?_eq_some.1 hafter)
          rw [strip_slashes_cons (by decide)] at hblock
          exact absurd (List.prefix_append "/*".toList (slashes.strip body)).isInfix hblock
      have hlong := afterComment?_slashes_append hend hopen t
      cases hc : slashes.afterComment? (c :: s) with
      | some rest =>
        have hrest := suffix_of_afterComment? hc
        rw [hc, Option.map_some, List.cons_append] at hlong
        rw [strip_of_comment hc hrest] at hblock ⊢
        rw [List.cons_append, strip_of_comment hlong (suffix_of_afterComment? hlong)]
        exact ih rest.length (Nat.lt_succ_of_le hrest.length_le) (hsuffix hrest) hblock rfl
      | none =>
        rw [hc, Option.map_none, List.cons_append] at hlong
        rw [strip_of_no_comment hc] at hblock ⊢
        have htail := ih s.length (Nat.lt_succ_self _) (hsuffix (List.suffix_refl s))
          (fun hi => hblock (hi.trans (List.suffix_cons c _).isInfix)) rfl
        rw [List.cons_append, strip_of_no_comment hlong, htail, List.cons_append]

/-- The line end at the end of a text belongs to no comment. -/
theorem ne_nil_of_afterComment? {t rest : Text} (ht : t.getLast? = some '\n')
    (h : slashes.afterComment? t = some rest) : rest ≠ [] := by
  rintro rfl
  rw [afterComment?_slashes, Option.or_eq_some_iff] at h
  rcases h with h | ⟨-, h⟩
  · obtain ⟨inside, rfl⟩ := eq_append_of_afterBlock? h
    simp [List.getLast?_cons, List.getLast?_append] at ht
  · obtain ⟨body, rfl, hrest⟩ := eq_append_of_afterLine? h
    have hmem := (List.mem_append.1 (List.mem_of_getLast? ht)).resolve_left (by decide)
    obtain ⟨a, b, rfl⟩ := List.append_of_mem hmem
    rw [dropWhile_append_cons (by decide)] at hrest
    simp at hrest

theorem getLast?_strip_slashes {s : Text} (hs : s.getLast? = some '\n') :
    (slashes.strip s).getLast? = some '\n' := by
  induction hn : s.length using Nat.strongRecOn generalizing s with
  | ind n ih =>
    subst hn
    cases s with
    | nil => cases hs
    | cons c s =>
      cases hc : slashes.afterComment? (c :: s) with
      | some rest =>
        have hrest := suffix_of_afterComment? hc
        have hne := ne_nil_of_afterComment? hs hc
        rw [strip_of_comment hc hrest]
        refine ih rest.length (Nat.lt_succ_of_le hrest.length_le) ?_ rfl
        rwa [getLast?_of_suffix (hrest.trans (List.suffix_cons c s)) hne]
      | none =>
        rw [strip_of_no_comment hc]
        cases s with
        | nil => exact hs
        | cons d s =>
          rw [List.getLast?_cons_cons] at hs
          rw [List.getLast?_cons, ih (d :: s).length (Nat.lt_succ_self _) hs rfl]
          rfl

/-- Comments behind whole lines without markers are removed as if the lines were not there. -/
theorem strip_slashes_append {s : Text} (hblock : ¬ "/*".toList <:+: s) (hline : ¬ "//".toList <:+: s)
    (hs : s.getLast? = some '\n') (t : Text) : slashes.strip (s ++ t) = s ++ slashes.strip t := by
  have hself := strip_slashes_eq_self hblock hline
  rw [strip_slashes_lines (by simp [hs]) (by rwa [hself]), hself]

/-! ## Texts without comments -/

theorem afterComment?_eq_none_iff {s : CommentStyle} {t : Text} : s.afterComment? t = none ↔
    (∀ b ∈ s.blocks, afterBlock? t b = none) ∧ ∀ m ∈ s.lines, afterLine? t m = none := by
  rw [afterComment?, Option.or_eq_none_iff, List.findSome?_eq_none_iff, List.findSome?_eq_none_iff]

theorem exists_of_afterComment? {s : CommentStyle} {t rest : Text} (h : s.afterComment? t = some rest) :
    (∃ b ∈ s.blocks, afterBlock? t b = some rest) ∨ ∃ m ∈ s.lines, afterLine? t m = some rest := by
  rw [afterComment?, Option.or_eq_some_iff] at h
  rcases h with h | ⟨-, h⟩
  · exact .inl (List.exists_of_findSome?_eq_some h)
  · exact .inr (List.exists_of_findSome?_eq_some h)

theorem afterBlock?_append_eq_none_iff {body : Text} {block : Text × Text} :
    afterBlock? (block.1 ++ body) block = none ↔ ¬ block.2 <:+: body := by
  rw [← cut?_eq_none_iff, afterBlock?, after?_eq_some.2 rfl, Option.bind_eq_bind, Option.bind_some]
  cases cut? block.2 body <;> simp

theorem afterLine?_append_eq_none_iff {body : Text} {line : LineMarker} :
    afterLine? (line.marker ++ body) line = none ↔ ∃ e ∈ line.exception, e <+: body := by
  have hbegin (e : Text) : (after? e body).isSome = true ↔ e <+: body := by
    rw [Option.isSome_iff_exists]
    exact exists_congr fun u => after?_eq_some.trans eq_comm
  rw [afterLine?, after?_eq_some.2 rfl, Option.bind_eq_bind, Option.bind_some]
  cases line.exception with
  | none => simp
  | some e => simp [hbegin]

/-- A text in which no comment stands: behind each line marker comes its exception, and behind each
    block opener no closer. -/
structure CommentFree (s : CommentStyle) (t : Text) : Prop where
  line : ∀ m ∈ s.lines, ∀ a b, t = a ++ (m.marker ++ b) → ∃ e ∈ m.exception, e <+: b
  block : ∀ p ∈ s.blocks, ∀ a b c, t ≠ a ++ (p.1 ++ (b ++ p.2 ++ c))

/-- No comment stands in a text when none can be read anywhere in it. -/
theorem commentFree_iff {s : CommentStyle} {t : Text} :
    CommentFree s t ↔ ∀ u, u <:+ t → s.afterComment? u = none := by
  constructor
  · intro h u hu
    obtain ⟨a, rfl⟩ := hu
    cases hcomment : s.afterComment? u with
    | none => rfl
    | some rest =>
      rcases exists_of_afterComment? hcomment with ⟨p, hp, hblock⟩ | ⟨m, hm, hline⟩
      · obtain ⟨inside, rfl⟩ := eq_append_of_afterBlock? hblock
        exact absurd rfl (h.block p hp a inside rest)
      · obtain ⟨body, rfl, -⟩ := eq_append_of_afterLine? hline
        rw [afterLine?_append_eq_none_iff.2 (h.line m hm a body rfl)] at hline
        cases hline
  · refine fun h => ⟨fun m hm a b ht => ?_, fun p hp a b c ht => ?_⟩
    · have hnone := afterComment?_eq_none_iff.1 (h (m.marker ++ b) ⟨a, ht.symm⟩)
      exact afterLine?_append_eq_none_iff.1 (hnone.2 m hm)
    · have hnone := afterComment?_eq_none_iff.1 (h (p.1 ++ (b ++ p.2 ++ c)) ⟨a, ht.symm⟩)
      exact afterBlock?_append_eq_none_iff.1 (hnone.1 p hp) (List.infix_append b p.2 c)

/-! ## What is left over -/

/-- A style of slashes, stars and hash signs. Blocks come with line comments of two slashes, and a hash
    sign may have its exception in front of a square bracket. -/
structure Simple (s : CommentStyle) : Prop where
  block : ∀ p ∈ s.blocks, p = ("/*".toList, "*/".toList) ∧ ⟨"//".toList, none⟩ ∈ s.lines
  line : ∀ m ∈ s.lines,
    m = ⟨"//".toList, none⟩ ∨ m = ⟨"#".toList, none⟩ ∨ m = ⟨"#".toList, some "[".toList⟩

theorem simple_slashes : Simple slashes := ⟨by decide, by decide⟩

theorem simple_hash : Simple hash := ⟨by decide, by decide⟩

theorem simple_slashesAndHash : Simple slashesAndHash := ⟨by decide, by decide⟩

section Simple

variable {s : CommentStyle}

/-- A comment starts with a slash, or with a hash sign and ends where its line does. -/
theorem Simple.comment_cases (hs : Simple s) {c : Char} {t rest : Text}
    (h : s.afterComment? (c :: t) = some rest) :
    rest <:+ t ∧ (c = '/' ∨ c = '#' ∧ ∀ d ∈ rest.head?, d = '\n') := by
  have hline {m : Char} {e : Option Text} (h : afterLine? (c :: t) ⟨[m], e⟩ = some rest) :
      ∀ d ∈ rest.head?, d = '\n' := by
    obtain ⟨body, -, rfl⟩ := eq_append_of_afterLine? h
    intro d hd
    simpa using not_of_head?_dropWhile hd
  rcases exists_of_afterComment? h with ⟨p, hp, h⟩ | ⟨m, hm, h⟩
  · obtain ⟨rfl, -⟩ := hs.block p hp
    obtain ⟨rfl, hrest⟩ := suffix_of_afterBlock? h rfl
    exact ⟨hrest, .inl rfl⟩
  · rcases hs.line m hm with rfl | rfl | rfl
    · obtain ⟨rfl, hrest⟩ := suffix_of_afterLine? h rfl
      exact ⟨hrest, .inl rfl⟩
    · obtain ⟨rfl, hrest⟩ := suffix_of_afterLine? h rfl
      exact ⟨hrest, .inr ⟨rfl, hline h⟩⟩
    · obtain ⟨rfl, hrest⟩ := suffix_of_afterLine? h rfl
      exact ⟨hrest, .inr ⟨rfl, hline h⟩⟩

/-- No comment starts with any other character. -/
theorem Simple.strip_cons (hs : Simple s) {c : Char} (hslash : c ≠ '/') (hhash : c ≠ '#') (t : Text) :
    s.strip (c :: t) = c :: s.strip t := by
  cases hc : s.afterComment? (c :: t) with
  | none => exact strip_of_no_comment hc
  | some rest =>
    rcases (hs.comment_cases hc).2 with rfl | ⟨rfl, -⟩
    · exact absurd rfl hslash
    · exact absurd rfl hhash

/-- The first character that is left was the first one before, unless a comment was removed there. -/
theorem Simple.head?_strip (hs : Simple s) {t : Text} {c : Char} (h : (s.strip t).head? = some c) :
    c = '\n' ∨ t.head? = some c ∨ t.head? = some '/' := by
  cases t with
  | nil => cases h
  | cons x t =>
    cases hx : s.afterComment? (x :: t) with
    | none =>
      rw [strip_of_no_comment hx] at h
      exact .inr (.inl h)
    | some rest =>
      obtain ⟨hrest, rfl | ⟨-, hnewline⟩⟩ := hs.comment_cases hx
      · exact .inr (.inr rfl)
      · rw [strip_of_comment hx hrest] at h
        cases rest with
        | nil => cases h
        | cons d rest =>
          obtain rfl := hnewline d rfl
          rw [hs.strip_cons (by decide) (by decide)] at h
          exact .inl (Option.some.inj h).symm

/-- Removing comments brings no star and slash together. -/
theorem Simple.not_close_infix_strip (hs : Simple s) {t : Text} (h : ¬ ['*', '/'] <:+: t) :
    ¬ ['*', '/'] <:+: s.strip t := by
  -- A comment is removed as a whole, so the induction is on the length of what is left to read.
  induction hn : t.length using Nat.strongRecOn generalizing t with
  | ind n ih =>
    subst hn
    cases t with
    | nil => exact h
    | cons c t =>
      have htail : ¬ ['*', '/'] <:+: t := fun hi => h (hi.trans (List.suffix_cons c t).isInfix)
      cases hc : s.afterComment? (c :: t) with
      | some rest =>
        obtain ⟨hrest, -⟩ := hs.comment_cases hc
        rw [strip_of_comment hc hrest]
        exact ih rest.length (Nat.lt_succ_of_le hrest.length_le)
          (fun hi => htail (hi.trans hrest.isInfix)) rfl
      | none =>
        rw [strip_of_no_comment hc, List.infix_cons_iff]
        rintro (⟨u, hu⟩ | hi)
        · -- The slash that comes after the star was there before: a hash comment leaves a line end.
          obtain ⟨rfl, hclose⟩ := List.cons.inj hu
          have hslash : t.head? = some '/' := by
            simpa using hs.head?_strip (t := t) (c := '/') (by rw [← hclose]; rfl)
          obtain ⟨v, rfl⟩ := List.head?_eq_some_iff.1 hslash
          exact h ⟨[], v, rfl⟩
        · exact ih t.length (Nat.lt_succ_self _) htail rfl hi

/-- A character that starts no comment starts none in front of what the removal leaves either. -/
theorem Simple.afterComment?_cons_strip (hs : Simple s) {c : Char} {t : Text}
    (h : s.afterComment? (c :: t) = none) : s.afterComment? (c :: s.strip t) = none := by
  have hnone := afterComment?_eq_none_iff.1 h
  have hslash (hline : ⟨"//".toList, none⟩ ∈ s.lines) (hc : c = '/') : t.head? ≠ some '/' := by
    intro hhead
    obtain ⟨u, rfl⟩ := List.head?_eq_some_iff.1 hhead
    subst hc
    obtain ⟨e, he, -⟩ := afterLine?_append_eq_none_iff.1 (hnone.2 _ hline)
    cases he
  refine afterComment?_eq_none_iff.2 ⟨fun p hp => ?_, fun m hm => ?_⟩
  · obtain ⟨rfl, hline⟩ := hs.block p hp
    cases hblock : afterBlock? (c :: s.strip t) ("/*".toList, "*/".toList) with
    | none => rfl
    | some rest =>
      obtain ⟨inside, hcut⟩ := eq_append_of_afterBlock? hblock
      obtain ⟨rfl, hopen⟩ := List.cons.inj hcut
      have hstar : t.head? = some '*' := by
        simpa [hslash hline rfl] using hs.head?_strip (t := t) (c := '*') (by rw [hopen]; rfl)
      -- The opener stood in the text and was kept, so no closer follows it.
      obtain ⟨u, rfl⟩ := List.head?_eq_some_iff.1 hstar
      rw [hs.strip_cons (by decide) (by decide)] at hopen
      have hclose := afterBlock?_append_eq_none_iff.1 (hnone.1 _ hp)
      refine absurd ?_ (hs.not_close_infix_strip hclose)
      rw [(List.cons.inj hopen).2]
      exact List.infix_append inside ['*', '/'] rest
  · cases hcomment : afterLine? (c :: s.strip t) m with
    | none => rfl
    | some rest =>
      obtain ⟨body, hcut, -⟩ := eq_append_of_afterLine? hcomment
      rcases hs.line m hm with rfl | rfl | rfl
      · obtain ⟨rfl, hopen⟩ := List.cons.inj hcut
        have hhead := hs.head?_strip (t := t) (c := '/') (by rw [hopen]; rfl)
        exact absurd (by simpa using hhead) (hslash hm rfl)
      · obtain ⟨rfl, -⟩ := List.cons.inj hcut
        obtain ⟨e, he, -⟩ := afterLine?_append_eq_none_iff.1 (hnone.2 _ hm)
        cases he
      · -- The bracket of the exception starts no comment, so it still stands there.
        obtain ⟨rfl, -⟩ := List.cons.inj hcut
        obtain ⟨e, he, u, rfl⟩ := afterLine?_append_eq_none_iff.1 (hnone.2 _ hm)
        cases he
        have hkept : s.strip ('[' :: u) = '[' :: s.strip u := hs.strip_cons (by decide) (by decide) u
        have hexcept : afterLine? ('#' :: '[' :: s.strip u) ⟨"#".toList, some "[".toList⟩ = none :=
          afterLine?_append_eq_none_iff.2 ⟨_, rfl, List.prefix_append _ _⟩
        rw [← hkept] at hexcept
        exact hcomment.symm.trans hexcept

/-- Without its comments a text holds none. -/
theorem Simple.commentFree_strip (hs : Simple s) (t : Text) : CommentFree s (s.strip t) := by
  rw [commentFree_iff]
  induction hn : t.length using Nat.strongRecOn generalizing t with
  | ind n ih =>
    subst hn
    cases t with
    | nil =>
      intro u hu
      obtain rfl := List.suffix_nil.1 hu
      cases hc : s.afterComment? [] with
      | none => rfl
      | some rest =>
        rcases exists_of_afterComment? hc with ⟨p, hp, h⟩ | ⟨m, hm, h⟩
        · obtain ⟨rfl, -⟩ := hs.block p hp
          cases h
        · rcases hs.line m hm with rfl | rfl | rfl <;> cases h
    | cons c t =>
      cases hc : s.afterComment? (c :: t) with
      | some rest =>
        obtain ⟨hrest, -⟩ := hs.comment_cases hc
        rw [strip_of_comment hc hrest]
        exact ih rest.length (Nat.lt_succ_of_le hrest.length_le) rest rfl
      | none =>
        rw [strip_of_no_comment hc]
        intro u hu
        rcases List.suffix_cons_iff.1 hu with rfl | hu
        · exact hs.afterComment?_cons_strip hc
        · exact ih t.length (Nat.lt_succ_self _) t rfl u hu

/-- Removing comments a second time changes nothing. -/
theorem Simple.strip_strip (hs : Simple s) (t : Text) : s.strip (s.strip t) = s.strip t :=
  strip_eq_self (commentFree_iff.1 (hs.commentFree_strip t))

end Simple

/-- A text in which no block comment is closed. -/
def BlockFree (t : Text) : Prop := ∀ a m b, t ≠ a ++ '/' :: '*' :: (m ++ '*' :: '/' :: b)

theorem BlockFree.mono {s t : Text} (h : BlockFree t) (hs : s <:+: t) : BlockFree s := by
  obtain ⟨u, v, rfl⟩ := hs
  rintro a m b rfl
  refine h (u ++ a) m (b ++ v) ?_
  simp only [List.append_assoc, List.cons_append]

/-- No block comment stays with its closer behind it. -/
theorem blockFree_strip (t : Text) : BlockFree (slashesAndHash.strip t) := by
  intro a m b h
  refine (simple_slashesAndHash.commentFree_strip t).block _ List.mem_cons_self a m b ?_
  rw [h, List.append_assoc]
  rfl

end Synopsis.CommentStyle
