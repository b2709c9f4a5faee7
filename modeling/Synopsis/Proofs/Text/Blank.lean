import Synopsis.Text.Blank

/-!
# Trimming, squeezing and collapsing

`collapse` is defined through the words of a text. A scanner that meets a collapsed text needs to know
it character by character, so this module gives it a second reading: `squeeze` writes one space for
every run of blanks and leaves all else in place, and a text is collapsed by trimming and squeezing in
either order (`collapse_eq_squeeze_trim`, `collapse_eq_trim_squeeze`).
-/

namespace Synopsis.Text

/-- One space for every run of blanks, all other characters as they stand. -/
def squeeze : Text → Text
  | [] => []
  | c :: cs =>
    if isBlank c then if cs.head?.any isBlank then squeeze cs else ' ' :: squeeze cs
    else c :: squeeze cs

@[simp] theorem isBlank_space : isBlank ' ' = true := by decide

@[simp] theorem isBlank_newline : isBlank '\n' = true := by decide

theorem ne_of_blank {c x : Char} (hc : isBlank c = true) (hx : isBlank x = false) : c ≠ x := by
  rintro rfl
  rw [hc] at hx
  cases hx

theorem not_mem_of_all {p : Char → Bool} {t : Text} {x : Char} (h : t.all p = true)
    (hx : p x = false) : x ∉ t := by
  intro hmem
  rw [List.all_eq_true.1 h x hmem] at hx
  cases hx

/-- What a computation says of all characters of a text holds of each. -/
theorem forall_mem_of_all {p : Char → Prop} [DecidablePred p] {t : Text}
    (h : t.all (fun c => decide (p c)) = true) : ∀ c ∈ t, p c :=
  fun c hc => of_decide_eq_true (List.all_eq_true.1 h c hc)

/-- What a computation says of all cuts of a text holds of each. -/
theorem forall_cut_of_range {p : Text → Text → Prop} {t : Text}
    (h : ∀ k ∈ List.range (t.length + 1), p (t.take k) (t.drop k)) {a b : Text} (hcut : t = a ++ b) :
    p a b := by
  subst hcut
  have hk := h a.length (List.mem_range.2 (by rw [List.length_append]; omega))
  rwa [List.take_left, List.drop_left] at hk

theorem nonempty?_eq_some {t r : Text} : nonempty? t = some r ↔ t ≠ [] ∧ t = r := by
  rw [nonempty?]
  split
  · next hempty => simp [List.isEmpty_iff.1 hempty]
  · next hne => simpa using fun _ => hne

theorem newline_not_mem_of_nonempty? {t r : Text} (ht : '\n' ∉ t) (h : r ∈ nonempty? t) : '\n' ∉ r := by
  obtain ⟨-, rfl⟩ := nonempty?_eq_some.1 h
  exact ht

theorem nonempty?_eq_none {t : Text} : nonempty? t = none ↔ t = [] := by
  cases t <;> simp [nonempty?]

theorem nonempty?_of_ne_nil {t : Text} (h : t ≠ []) : nonempty? t = some t :=
  nonempty?_eq_some.2 ⟨h, rfl⟩

theorem not_of_any_eq_false {p : Char → Bool} {t : Text} (h : t.any p = false) :
    ∀ c ∈ t, p c = false :=
  fun c hc => Bool.eq_false_iff.2 (List.any_eq_false.1 h c hc)

theorem suffix_of_append_eq_append {c : Char} {s t a b : Text} (h : s ++ c :: t = a ++ b)
    (hc : c ∉ b) : b <:+ t := by
  rcases List.append_eq_append_iff.1 h with ⟨u, -, hu⟩ | ⟨u, -, rfl⟩
  · cases u with
    | nil =>
      obtain rfl : c :: t = b := hu
      exact absurd List.mem_cons_self hc
    | cons x u => exact ⟨u, (List.cons.inj hu).2.symm⟩
  · exact absurd (List.mem_append_right u List.mem_cons_self) hc

/-- A text that occurs where a character stands that it does not hold occurs on one side of it. -/
theorem infix_of_append_cons {m s t : Text} {c : Char} (hc : c ∉ m) (h : m <:+: s ++ c :: t) :
    m <:+: s ∨ m <:+: t := by
  obtain ⟨a, b, heq⟩ := h
  rcases List.append_eq_append_iff.1 heq with ⟨u, rfl, -⟩ | ⟨u, hfront, hrest⟩
  · exact .inl ⟨a, u, rfl⟩
  · cases u with
    | nil => exact .inl ⟨a, [], by rw [hfront, List.append_nil, List.append_nil]⟩
    | cons x u =>
      obtain ⟨rfl, rfl⟩ := List.cons.inj hrest
      exact .inr ((suffix_of_append_eq_append hfront.symm hc).isInfix.trans ⟨[], b, rfl⟩)

/-- A beginning whose last character is no `p` takes in a whole run of `p`. -/
theorem exists_append_of_getLast? {p : Char → Bool} {u c d v : Text} (hu : u.all p = true) (hne : c ≠ [])
    (hc : c.getLast?.any p = false) (h : c ++ d = u ++ v) : ∃ c', c = u ++ c' ∧ v = c' ++ d := by
  rcases List.append_eq_append_iff.1 h with ⟨a, rfl, -⟩ | hcut
  · have hmem : c.getLast hne ∈ c ++ a := List.mem_append_left a (List.getLast_mem hne)
    rw [List.getLast?_eq_some_getLast hne, Option.any_some, List.all_eq_true.1 hu _ hmem] at hc
    cases hc
  · exact hcut

/-- An end whose first character is no `p` leaves a whole run of `p` to what precedes it. -/
theorem exists_append_of_head? {p : Char → Bool} {u c d v : Text} (hu : u.all p = true) (hne : d ≠ [])
    (hd : d.head?.any p = false) (h : c ++ d = u ++ v) : ∃ c', c = u ++ c' ∧ v = c' ++ d := by
  rcases List.append_eq_append_iff.1 h with ⟨a, rfl, rfl⟩ | hcut
  · cases a with
    | nil => exact ⟨[], by simp, rfl⟩
    | cons x a =>
      have hx : p x = true := List.all_eq_true.1 hu x (by simp)
      rw [List.cons_append, List.head?_cons, Option.any_some, hx] at hd
      cases hd
  · exact hcut

theorem getLast?_of_suffix {s t : Text} (h : s <:+ t) (hne : s ≠ []) : s.getLast? = t.getLast? := by
  obtain ⟨u, rfl⟩ := h
  rw [List.getLast?_append, List.getLast?_eq_some_getLast hne, Option.some_or]

theorem head?_of_isPrefix {s t : Text} (h : s <+: t) (hne : s ≠ []) : s.head? = t.head? := by
  obtain ⟨u, rfl⟩ := h
  obtain ⟨c, s, rfl⟩ := List.exists_cons_of_ne_nil hne
  rfl

/-- What stands behind a character that is not the last one ends as the text does. -/
theorem getLast?_behind {a b s : Text} {c d : Char} (hne : c ≠ d) (hcut : a ++ c :: b = s)
    (hs : s.getLast? = some d) : b.getLast? = some d := by
  have hb : b ≠ [] := by
    rintro rfl
    rw [← hcut, List.getLast?_concat] at hs
    exact hne (Option.some.inj hs)
  rw [← hs, ← hcut]
  exact getLast?_of_suffix ((List.suffix_cons c b).trans (List.suffix_append a _)) hb

theorem dropWhile_append_cons {p : Char → Bool} {c : Char} (hc : p c = false) (s t : Text) :
    (s ++ c :: t).dropWhile p = s.dropWhile p ++ c :: t := by
  rw [List.dropWhile_append]
  split
  · next hs =>
    rw [List.isEmpty_iff.1 hs, List.dropWhile_cons_of_neg (by simp [hc])]
    rfl
  · rfl

/-! ## Blank texts -/

@[simp] theorem blank_nil : blank [] = true := rfl

@[simp] theorem blank_cons (c : Char) (t : Text) : blank (c :: t) = (isBlank c && blank t) := rfl

@[simp] theorem blank_append (s t : Text) : blank (s ++ t) = (blank s && blank t) := by
  simp [blank]

@[simp] theorem blank_reverse (t : Text) : blank t.reverse = blank t := by
  simp [blank]

theorem blank_eq_false_of_getLast? {t : Text} (hne : t ≠ [])
    (h : t.getLast?.any isBlank = false) : blank t = false := by
  refine List.all_eq_false.2 ⟨t.getLast hne, List.getLast_mem hne, ?_⟩
  rw [List.getLast?_eq_some_getLast hne] at h
  simpa using h

/-! ## Trimming -/

theorem trimStart_append_of_blank {g : Text} (hg : blank g = true) (t : Text) :
    trimStart (g ++ t) = trimStart t := by
  induction g with
  | nil => rfl
  | cons c g ih =>
    obtain ⟨hc, hg⟩ := Bool.and_eq_true_iff.1 hg
    simpa [trimStart, hc] using ih hg

theorem trimStart_cons_of_not {c : Char} (hc : isBlank c = false) (t : Text) :
    trimStart (c :: t) = c :: t := by
  simp [trimStart, hc]

theorem trimStart_eq_self {t : Text} (h : t.head?.any isBlank = false) : trimStart t = t := by
  cases t with
  | nil => rfl
  | cons c t => exact trimStart_cons_of_not (by simpa using h) t

theorem trimStart_append_solid {t : Text} (ht : t.head?.any isBlank = false) (s : Text) :
    trimStart (s ++ t) = trimStart s ++ t := by
  cases t with
  | nil => rw [List.append_nil, List.append_nil]
  | cons c t => exact dropWhile_append_cons (by simpa using ht) s t

theorem head?_trimStart_append {g : Text} (hg : blank g = true) (t : Text) :
    (trimStart (t ++ g)).head? = (trimStart t).head? := by
  induction t with
  | nil =>
    rw [List.nil_append, ← List.append_nil g, trimStart_append_of_blank hg]
  | cons c t ih =>
    cases hc : isBlank c with
    | false => rw [List.cons_append, trimStart_cons_of_not hc, trimStart_cons_of_not hc, List.head?_cons, List.head?_cons]
    | true => simpa [trimStart, hc] using ih

theorem exists_trimStart (t : Text) :
    ∃ g, blank g = true ∧ t = g ++ trimStart t ∧ (trimStart t).head?.any isBlank = false := by
  refine ⟨t.takeWhile isBlank, ?_, List.takeWhile_append_dropWhile.symm, ?_⟩
  · simp [blank]
  · have h := List.head?_dropWhile_not isBlank t
    rw [trimStart]
    cases hd : (t.dropWhile isBlank).head? with
    | none => rfl
    | some c =>
      rw [hd] at h
      simpa using h

theorem trimEnd_eq_reverse (t : Text) : trimEnd t = (trimStart t.reverse).reverse := rfl

theorem trimEnd_append_of_blank {g : Text} (hg : blank g = true) (t : Text) :
    trimEnd (t ++ g) = trimEnd t := by
  rw [trimEnd_eq_reverse, List.reverse_append, trimStart_append_of_blank (by simpa using hg),
    ← trimEnd_eq_reverse]

theorem dropTrailing_eq_self {p : Char → Bool} {t : Text} (h : ∀ c ∈ t.getLast?, p c = false) :
    dropTrailing p t = t := by
  rw [← List.head?_reverse] at h
  rw [dropTrailing]
  cases ht : t.reverse with
  | nil => exact (List.reverse_eq_nil_iff.1 ht).symm
  | cons c u =>
    have hc := h c (by rw [ht]; rfl)
    rw [List.dropWhile_cons_of_neg (by simp [hc]), ← ht, List.reverse_reverse]

theorem prefix_dropTrailing (p : Char → Bool) (t : Text) : dropTrailing p t <+: t := by
  rw [← List.reverse_suffix, dropTrailing, List.reverse_reverse]
  exact List.dropWhile_suffix p

theorem trimEnd_eq_self {t : Text} (h : t.getLast?.any isBlank = false) : trimEnd t = t := by
  refine dropTrailing_eq_self fun c hc => ?_
  rw [Option.mem_def.1 hc] at h
  exact h

theorem exists_trimEnd (t : Text) :
    ∃ g, blank g = true ∧ t = trimEnd t ++ g ∧ (trimEnd t).getLast?.any isBlank = false := by
  obtain ⟨g, hg, ht, hh⟩ := exists_trimStart t.reverse
  refine ⟨g.reverse, by simpa using hg, ?_, ?_⟩
  · have := congrArg List.reverse ht
    simpa [trimEnd_eq_reverse] using this
  · simpa [trimEnd_eq_reverse] using hh

/-- The blanks that trimming takes off, on either side. -/
theorem exists_trim (t : Text) :
    ∃ g g', blank g = true ∧ blank g' = true ∧ t = g ++ trim t ++ g' := by
  obtain ⟨g, hg, ht, _⟩ := exists_trimStart t
  obtain ⟨g', hg', ht', _⟩ := exists_trimEnd (trimStart t)
  refine ⟨g, g', hg, hg', ?_⟩
  rw [trim, List.append_assoc, ← ht', ← ht]

theorem head?_trim (t : Text) : (trim t).head?.any isBlank = false := by
  obtain ⟨g, hg, ht, hh⟩ := exists_trimStart t
  obtain ⟨g', hg', ht', _⟩ := exists_trimEnd (trimStart t)
  rw [trim]
  cases he : trimEnd (trimStart t) with
  | nil => rfl
  | cons c u =>
    rw [ht', he] at hh
    simpa using hh

theorem getLast?_trim (t : Text) : (trim t).getLast?.any isBlank = false :=
  (exists_trimEnd (trimStart t)).choose_spec.2.2

theorem trim_eq_self_iff {t : Text} :
    trim t = t ↔ t.head?.any isBlank = false ∧ t.getLast?.any isBlank = false := by
  constructor
  · intro h
    exact ⟨h ▸ head?_trim t, h ▸ getLast?_trim t⟩
  · rintro ⟨hh, hl⟩
    rw [trim, trimStart_eq_self hh, trimEnd_eq_self hl]

theorem trimEnd_append_cons {c : Char} (hc : isBlank c = false) (s t : Text) :
    trimEnd (s ++ c :: t) = s ++ c :: trimEnd t := by
  rw [trimEnd, dropTrailing, List.reverse_append, List.reverse_cons, List.append_assoc,
    List.singleton_append, dropWhile_append_cons hc, List.reverse_append, List.reverse_cons,
    List.reverse_reverse, List.append_assoc, List.singleton_append]
  rfl

/-- Trimming stops on both sides of a character that is not blank. -/
theorem trim_append_cons {c : Char} (hc : isBlank c = false) (s t : Text) :
    trim (s ++ c :: t) = trimStart s ++ c :: trimEnd t := by
  rw [trim, trimStart, dropWhile_append_cons hc, trimEnd_append_cons hc]
  rfl

@[simp] theorem trim_trim (t : Text) : trim (trim t) = trim t :=
  trim_eq_self_iff.2 ⟨head?_trim t, getLast?_trim t⟩

/-- A text that ends in a trimmed one is trimmed at its end. -/
theorem trimEnd_append_of_trim {t : Text} (hne : t ≠ []) (ht : trim t = t) (s : Text) :
    trimEnd (s ++ t) = s ++ t := by
  have hlast := (trim_eq_self_iff.1 ht).2
  rw [getLast?_of_suffix (List.suffix_append s t) hne] at hlast
  exact trimEnd_eq_self hlast

/-- A text between two trimmed ones is not touched by trimming. -/
theorem trim_around {s t : Text} (hs : s ≠ []) (htrim : trim s = s) (ht : t ≠ []) (htrim' : trim t = t)
    (m : Text) : trim (s ++ (m ++ t)) = s ++ (m ++ t) := by
  have hhead := (trim_eq_self_iff.1 htrim).1
  rw [head?_of_isPrefix (List.prefix_append s (m ++ t)) hs] at hhead
  rw [trim, trimStart_eq_self hhead, ← List.append_assoc, trimEnd_append_of_trim ht htrim']

theorem trim_of_solid {t : Text} (h : ∀ c ∈ t, isBlank c = false) : trim t = t := by
  refine trim_eq_self_iff.2 ⟨?_, ?_⟩
  · cases hc : t.head? with
    | none => rfl
    | some c => exact h c (List.mem_of_mem_head? hc)
  · cases hc : t.getLast? with
    | none => rfl
    | some c => exact h c (List.mem_of_getLast? hc)

@[simp] theorem trim_nil : trim [] = [] := rfl

/-- Blanks around a text are what trimming takes off. -/
theorem trim_pad {g k : Text} (hg : blank g = true) (hk : blank k = true) (t : Text) :
    trim (g ++ t ++ k) = trim t := by
  obtain ⟨h, hh, ht, hd⟩ := exists_trimStart t
  have hstart : trimStart (g ++ t ++ k) = trimStart (trimStart t ++ k) := by
    rw [List.append_assoc, trimStart_append_of_blank hg]
    conv => lhs; rw [ht, List.append_assoc]
    exact trimStart_append_of_blank hh _
  cases hs : trimStart t with
  | nil =>
    have hnil : trimStart k = [] := by
      rw [← List.append_nil k, trimStart_append_of_blank hk]
      rfl
    rw [trim, hstart, hs, List.nil_append, hnil, trim, hs]
  | cons c u =>
    rw [hs] at hd
    rw [trim, hstart, hs, List.cons_append, trimStart_cons_of_not (by simpa using hd),
      ← List.cons_append, trimEnd_append_of_blank hk, trim, hs]

theorem trim_cons_of_blank {c : Char} (hc : isBlank c = true) (t : Text) :
    trim (c :: t) = trim t := by
  have hpad := trim_pad (g := [c]) (k := []) (by rw [blank_cons, hc]; rfl) rfl t
  rwa [List.append_nil] at hpad

theorem trim_concat_of_blank {c : Char} (hc : isBlank c = true) (t : Text) :
    trim (t ++ [c]) = trim t :=
  trim_pad (g := []) (k := [c]) rfl (by rw [blank_cons, hc]; rfl) t

theorem infix_trim (t : Text) : trim t <:+: t := by
  obtain ⟨g, g', -, -, ht⟩ := exists_trim t
  exact ⟨g, g', ht.symm⟩

theorem mem_of_mem_trim {t : Text} {c : Char} (h : c ∈ trim t) : c ∈ t := (infix_trim t).subset h

/-- A character up to which a text is taken is not in what is taken, trimmed or not. -/
theorem not_mem_trim_takeWhile {p : Char → Bool} {x : Char} (hx : p x = false) (t : Text) :
    x ∉ trim (t.takeWhile p) :=
  fun h => not_mem_of_all List.all_takeWhile hx (mem_of_mem_trim h)

/-- Trimming takes off nothing but blanks. -/
theorem mem_trim_of_mem {t : Text} {c : Char} (hc : isBlank c = false) (h : c ∈ t) : c ∈ trim t := by
  obtain ⟨g, g', hg, hg', ht⟩ := exists_trim t
  rw [ht] at h
  rcases List.mem_append.1 h with h | h
  · exact (List.mem_append.1 h).resolve_left (not_mem_of_all hg hc)
  · exact absurd h (not_mem_of_all hg' hc)

theorem trim_trimEnd (t : Text) : trim (trimEnd t) = trim t := by
  obtain ⟨g, hg, ht, -⟩ := exists_trimEnd t
  conv => rhs; rw [ht]
  simpa using (trim_pad blank_nil hg (trimEnd t)).symm

theorem trimEnd_cons (c : Char) (t : Text) : trimEnd (c :: t) = trimEnd (c :: trimEnd t) := by
  obtain ⟨g, hg, ht, -⟩ := exists_trimEnd t
  conv => lhs; rw [ht, ← List.cons_append]
  exact trimEnd_append_of_blank hg _

theorem trim_eq_nil_iff {t : Text} : trim t = [] ↔ blank t = true := by
  constructor
  · intro h
    obtain ⟨g, g', hg, hg', ht⟩ := exists_trim t
    rw [ht, h]
    simp [hg, hg']
  · intro h
    simpa using trim_pad h blank_nil []

theorem filter_of_blank {p : Char → Bool} (hp : ∀ c, isBlank c = true → p c = false) {g : Text}
    (hg : blank g = true) : g.filter p = [] := by
  refine List.filter_eq_nil_iff.2 fun c hc => ?_
  rw [hp c (List.all_eq_true.1 hg c hc)]
  decide

theorem filter_trim {p : Char → Bool} (hp : ∀ c, isBlank c = true → p c = false) (t : Text) :
    (trim t).filter p = t.filter p := by
  obtain ⟨g, g', hg, hg', ht⟩ := exists_trim t
  conv => rhs; rw [ht]
  simp [filter_of_blank hp hg, filter_of_blank hp hg']

/-! ## Words -/

theorem words_append_cons_of_blank {c : Char} (hc : isBlank c = true) (s t : Text) :
    words (s ++ c :: t) = words s ++ words t := by
  rw [words, List.splitOnP_append_cons s t hc, List.filter_append]
  rfl

@[simp] theorem words_nil : words [] = [] := rfl

theorem words_cons_of_blank {c : Char} (hc : isBlank c = true) (t : Text) :
    words (c :: t) = words t := by
  simpa using words_append_cons_of_blank hc [] t

theorem words_of_blank {t : Text} (h : blank t = true) : words t = [] := by
  induction t with
  | nil => rfl
  | cons c t ih =>
    obtain ⟨hc, ht⟩ := Bool.and_eq_true_iff.1 h
    rw [words_cons_of_blank hc, ih ht]

theorem words_of_solid {t : Text} (hne : t ≠ []) (h : ∀ c ∈ t, isBlank c = false) : words t = [t] := by
  rw [words, List.splitOnP_eq_singleton h]
  simp [hne]

theorem words_append_of_blank {g : Text} (hg : blank g = true) (t : Text) :
    words (t ++ g) = words t := by
  cases g with
  | nil => simp
  | cons c g =>
    obtain ⟨hc, hg⟩ := Bool.and_eq_true_iff.1 hg
    rw [words_append_cons_of_blank hc, words_of_blank hg, List.append_nil]

theorem words_blank_append {g : Text} (hg : blank g = true) (t : Text) :
    words (g ++ t) = words t := by
  induction g with
  | nil => rfl
  | cons c g ih =>
    obtain ⟨hc, hg⟩ := Bool.and_eq_true_iff.1 hg
    rw [List.cons_append, words_cons_of_blank hc, ih hg]

@[simp] theorem words_trim (t : Text) : words (trim t) = words t := by
  obtain ⟨g, g', hg, hg', ht⟩ := exists_trim t
  conv => rhs; rw [ht, words_append_of_blank hg', words_blank_append hg]

theorem words_cons_of_not {c : Char} (hc : isBlank c = false) (t : Text) :
    words (c :: t) =
      if t.head?.any (!isBlank ·) then (words t).modifyHead (c :: ·) else [c] :: words t := by
  rw [words, List.splitOnP_cons_eq_if_modifyHead, if_neg (by simp [hc])]
  cases t with
  | nil => rfl
  | cons d t =>
    rw [words, List.splitOnP_cons_eq_if_modifyHead]
    obtain ⟨w, ws, hw⟩ := List.exists_cons_of_ne_nil (List.splitOnP_ne_nil isBlank t)
    cases hd : isBlank d <;> simp [hd, hw]

theorem words_ne_nil {t : Text} (h : blank t = false) : words t ≠ [] := by
  induction t with
  | nil => simp at h
  | cons c t ih =>
    cases hc : isBlank c with
    | true =>
      rw [words_cons_of_blank hc]
      exact ih (by simpa [hc] using h)
    | false =>
      rw [words_cons_of_not hc]
      split
      · next hd =>
        have ht : blank t = false := by
          cases t with
          | nil => simp at hd
          | cons d t => simp_all
        simpa using ih ht
      · simp

theorem flatten_words (t : Text) : (words t).flatten = t.filter (!isBlank ·) := by
  induction t with
  | nil => rfl
  | cons c t ih =>
    cases hc : isBlank c with
    | true => rw [words_cons_of_blank hc, ih, List.filter_cons_of_neg (by simp [hc])]
    | false =>
      rw [words_cons_of_not hc, List.filter_cons_of_pos (by simp [hc]), ← ih]
      split
      · next hnext =>
        -- the character goes on a word that starts behind it
        have hblank : blank t = false := by
          cases t with
          | nil => cases hnext
          | cons d t =>
            have hd : isBlank d = false := by simpa using hnext
            rw [blank_cons, hd, Bool.false_and]
        obtain ⟨w, ws, hws⟩ := List.exists_cons_of_ne_nil (words_ne_nil hblank)
        rw [hws, List.modifyHead_cons, List.flatten_cons, List.flatten_cons, List.cons_append]
      · rfl

theorem mem_of_mem_words {t w : Text} (hw : w ∈ words t) {c : Char} (hc : c ∈ w) :
    c ∈ t ∧ isBlank c = false := by
  have hmem := List.mem_flatten.2 ⟨w, hw, hc⟩
  rw [flatten_words, List.mem_filter] at hmem
  exact ⟨hmem.1, by simpa using hmem.2⟩

/-! ## Squeezing -/

@[simp] theorem squeeze_nil : squeeze [] = [] := rfl

theorem squeeze_cons_of_not {c : Char} (hc : isBlank c = false) (t : Text) :
    squeeze (c :: t) = c :: squeeze t := by
  simp [squeeze, hc]

theorem squeeze_cons_of_blank {c : Char} (hc : isBlank c = true) (t : Text) :
    squeeze (c :: t) = ' ' :: squeeze (trimStart t) := by
  induction t generalizing c with
  | nil => simp [squeeze, hc, trimStart]
  | cons d t ih =>
    cases hd : isBlank d with
    | true =>
      rw [squeeze, if_pos hc, if_pos (by simpa using hd), ih hd]
      simp [trimStart, hd]
    | false => rw [trimStart_cons_of_not hd, squeeze, if_pos hc, if_neg (by simp [hd])]

theorem blank_squeeze {g : Text} (hg : blank g = true) : blank (squeeze g) = true := by
  cases g with
  | nil => rfl
  | cons c g =>
    obtain ⟨hc, hg⟩ := Bool.and_eq_true_iff.1 hg
    have htrim := trimStart_append_of_blank hg []
    rw [List.append_nil] at htrim
    rw [squeeze_cons_of_blank hc, htrim]
    rfl

/-- Two texts are squeezed apart where no run of blanks lies across the border. -/
theorem squeeze_append {s : Text} (t : Text)
    (h : s.getLast?.any isBlank = false ∨ t.head?.any isBlank = false) :
    squeeze (s ++ t) = squeeze s ++ squeeze t := by
  induction s with
  | nil => rfl
  | cons c s ih =>
    cases s with
    | nil =>
      cases hc : isBlank c with
      | true =>
        have ht : t.head?.any isBlank = false := by simpa [hc] using h
        simp [squeeze, hc, ht]
      | false => simp [squeeze, hc]
    | cons d s =>
      have ih := ih (by simpa using h)
      rw [List.cons_append, squeeze, squeeze, ih]
      cases hc : isBlank c <;> cases hd : isBlank d <;> simp [hd]

theorem head?_squeeze (t : Text) : (squeeze t).head?.any isBlank = t.head?.any isBlank := by
  fun_induction squeeze t <;> simp_all

theorem head?_squeeze_not (t : Text) :
    (squeeze t).head?.any (!isBlank ·) = t.head?.any (!isBlank ·) := by
  fun_induction squeeze t with
  | case1 => rfl
  | case2 c cs hc hd ih =>
    rw [ih]
    cases cs with
    | nil => simp at hd
    | cons d ds => simp_all
  | case3 c cs hc hd ih => simp [hc]
  | case4 c cs hc ih => simp

theorem getLast?_squeeze {t : Text} (h : t.getLast?.any isBlank = false) :
    (squeeze t).getLast? = t.getLast? := by
  induction t with
  | nil => rfl
  | cons c t ih =>
    cases t with
    | nil => simp_all [squeeze]
    | cons d t =>
      have ih := ih (by simpa using h)
      have hne : squeeze (d :: t) ≠ [] := by
        intro hnil
        rw [hnil, List.getLast?_eq_some_getLast (List.cons_ne_nil d t)] at ih
        cases ih
      rw [squeeze, List.getLast?_cons_cons, ← ih]
      obtain ⟨e, u, he⟩ := List.exists_cons_of_ne_nil hne
      rw [he]
      cases hc : isBlank c <;> cases hd : isBlank d <;> simp [hd]

theorem trimStart_squeeze (t : Text) : trimStart (squeeze t) = squeeze (trimStart t) := by
  obtain ⟨g, hg, ht, hh⟩ := exists_trimStart t
  conv => lhs; rw [ht, squeeze_append _ (.inr hh)]
  have hsg := blank_squeeze hg
  rw [trimStart_append_of_blank hsg, trimStart_eq_self (by rw [head?_squeeze]; exact hh)]

theorem trim_squeeze (t : Text) : trim (squeeze t) = squeeze (trim t) := by
  obtain ⟨g, hg, ht, hl⟩ := exists_trimEnd (trimStart t)
  have hsg := blank_squeeze hg
  rw [trim, trimStart_squeeze, trim]
  conv => lhs; rw [ht, squeeze_append _ (.inl hl)]
  rw [trimEnd_append_of_blank hsg, trimEnd_eq_self (by rw [getLast?_squeeze hl]; exact hl)]

@[simp] theorem words_squeeze (t : Text) : words (squeeze t) = words t := by
  fun_induction squeeze t with
  | case1 => rfl
  | case2 c cs hc hd ih => rw [ih, words_cons_of_blank hc]
  | case3 c cs hc hd ih => rw [words_cons_of_blank isBlank_space, ih, words_cons_of_blank hc]
  | case4 c cs hc ih =>
    have hc : isBlank c = false := by simpa using hc
    rw [words_cons_of_not hc, words_cons_of_not hc, head?_squeeze_not, ih]

theorem filter_squeeze {p : Char → Bool} (hp : ∀ c, isBlank c = true → p c = false) (t : Text) :
    (squeeze t).filter p = t.filter p := by
  fun_induction squeeze t with
  | case1 => rfl
  | case2 c cs hc hd ih => rw [ih, List.filter_cons_of_neg (by simp [hp c hc])]
  | case3 c cs hc hd ih =>
    rw [List.filter_cons_of_neg (by simp [hp ' ' isBlank_space]), ih,
      List.filter_cons_of_neg (by simp [hp c hc])]
  | case4 c cs hc ih => rw [List.filter_cons, List.filter_cons, ih]

/-! ## Collapsing -/

@[simp] theorem collapse_nil : collapse [] = [] := rfl

@[simp] theorem collapse_trim (t : Text) : collapse (trim t) = collapse t := by
  rw [collapse, words_trim, collapse]

@[simp] theorem collapse_squeeze (t : Text) : collapse (squeeze t) = collapse t := by
  rw [collapse, words_squeeze, collapse]

theorem collapse_cons_of_blank {c : Char} (hc : isBlank c = true) (t : Text) :
    collapse (c :: t) = collapse t := by
  rw [collapse, words_cons_of_blank hc, collapse]

/-- In a text that does not end in a blank every run of blanks separates two words or leads the
    first one. -/
theorem squeeze_eq_collapse {t : Text} (h : t.getLast?.any isBlank = false) :
    squeeze t = (if t.head?.any isBlank then [' '] else []) ++ collapse t := by
  induction t with
  | nil => rfl
  | cons c t ih =>
    cases t with
    | nil =>
      have hc : isBlank c = false := by simpa using h
      simp [squeeze, hc, collapse, words_cons_of_not, join]
    | cons d t =>
      have ih := ih (by simpa using h)
      have hlast := blank_eq_false_of_getLast? (List.cons_ne_nil d t) (by simpa using h)
      cases hc : isBlank c with
      | true =>
        rw [squeeze, if_pos hc, collapse_cons_of_blank hc, ih]
        cases hd : isBlank d <;> simp [hd, hc]
      | false =>
        rw [squeeze, if_neg (by simp [hc]), ih]
        simp only [collapse, words_cons_of_not hc]
        obtain ⟨w, ws, hw⟩ := List.exists_cons_of_ne_nil (words_ne_nil hlast)
        cases hd : isBlank d <;> simp [hd, hc, hw, join, List.intercalate_cons_cons]

theorem collapse_eq_squeeze {t : Text} (h : trim t = t) : collapse t = squeeze t := by
  obtain ⟨hh, hl⟩ := trim_eq_self_iff.1 h
  simp [squeeze_eq_collapse hl, hh]

/-- Collapsing is trimming, then squeezing. -/
theorem collapse_eq_squeeze_trim (t : Text) : collapse t = squeeze (trim t) := by
  rw [← collapse_trim, collapse_eq_squeeze (trim_trim t)]

/-- Collapsing is squeezing, then trimming. -/
theorem collapse_eq_trim_squeeze (t : Text) : collapse t = trim (squeeze t) := by
  rw [trim_squeeze, collapse_eq_squeeze_trim]

theorem squeeze_eq_nil_iff {t : Text} : squeeze t = [] ↔ t = [] := by
  constructor
  · intro h
    fun_induction squeeze t with
    | case1 => rfl
    | case2 c cs hc hd ih => simp [ih h] at hd
    | case3 => cases h
    | case4 => cases h
  · rintro rfl
    rfl

theorem isEmpty_squeeze (t : Text) : (squeeze t).isEmpty = t.isEmpty := by
  rw [Bool.eq_iff_iff, List.isEmpty_iff, List.isEmpty_iff, squeeze_eq_nil_iff]

theorem collapse_eq_nil_iff {t : Text} : collapse t = [] ↔ blank t = true := by
  rw [collapse_eq_squeeze_trim, squeeze_eq_nil_iff, trim_eq_nil_iff]

theorem trim_collapse (t : Text) : trim (collapse t) = collapse t := by
  rw [collapse_eq_trim_squeeze, trim_trim]

@[simp] theorem collapse_collapse (t : Text) : collapse (collapse t) = collapse t := by
  conv => lhs; rw [collapse_eq_trim_squeeze t, collapse_trim, collapse_squeeze]

theorem eq_space_of_mem_squeeze {t : Text} {c : Char} (h : c ∈ squeeze t)
    (hc : isBlank c = true) : c = ' ' := by
  fun_induction squeeze t with
  | case1 => cases h
  | case2 d ds hd hds ih => exact ih h
  | case3 d ds hd hds ih =>
    rcases List.mem_cons.1 h with rfl | h
    · rfl
    · exact ih h
  | case4 d ds hd ih =>
    rcases List.mem_cons.1 h with rfl | h
    · exact absurd hc hd
    · exact ih h

/-- A collapsed text stands on one line. -/
theorem newline_not_mem_collapse (t : Text) : '\n' ∉ collapse t := by
  intro h
  rw [collapse_eq_squeeze_trim] at h
  exact absurd (eq_space_of_mem_squeeze h isBlank_newline) (by decide)

theorem filter_collapse {p : Char → Bool} (hp : ∀ c, isBlank c = true → p c = false) (t : Text) :
    (collapse t).filter p = t.filter p := by
  rw [collapse_eq_squeeze_trim, filter_squeeze hp, filter_trim hp]

/-! ## Joining -/

theorem mem_collapse_iff {c : Char} (hc : isBlank c = false) {t : Text} : c ∈ collapse t ↔ c ∈ t := by
  have hfilter := filter_collapse (p := (· == c)) (fun x hx => by simpa using ne_of_blank hx hc) t
  have hmem (t : Text) : c ∈ t ↔ c ∈ t.filter (· == c) := by simp
  rw [hmem (collapse t), hfilter, ← hmem t]

theorem join_singleton (sep : String) (p : Text) : join sep [p] = p :=
  List.intercalate_singleton

theorem join_cons_cons (sep : String) (p q : Text) (ps : List Text) :
    join sep (p :: q :: ps) = p ++ (sep.toList ++ join sep (q :: ps)) := by
  rw [join, join, List.intercalate_cons_cons, List.append_assoc]

theorem join_append (sep : String) {ps qs : List Text} (hp : ps ≠ []) (hq : qs ≠ []) :
    join sep (ps ++ qs) = join sep ps ++ (sep.toList ++ join sep qs) := by
  induction ps with
  | nil => exact absurd rfl hp
  | cons p ps ih =>
    cases ps with
    | nil =>
      obtain ⟨q, qs, rfl⟩ := List.exists_cons_of_ne_nil hq
      rw [List.singleton_append, join_cons_cons, join_singleton]
    | cons r ps =>
      have hrest := ih (List.cons_ne_nil r ps)
      rw [List.cons_append] at hrest
      rw [List.cons_append, List.cons_append, join_cons_cons, hrest, join_cons_cons, List.append_assoc,
        List.append_assoc]

theorem all_join {p : Char → Bool} {sep : String} (hsep : sep.toList.all p = true) {ts : List Text}
    (h : ∀ t ∈ ts, t.all p = true) : (join sep ts).all p = true := by
  induction ts with
  | nil => rfl
  | cons t ts ih =>
    have ht := h t List.mem_cons_self
    have hts := ih fun u hu => h u (List.mem_cons_of_mem t hu)
    cases ts with
    | nil => rwa [join_singleton]
    | cons u ts => rw [join_cons_cons, List.all_append, List.all_append, ht, hsep, hts]; rfl

theorem join_ne_nil (sep : String) {ps : List Text} (hne : ps ≠ []) (h : ∀ p ∈ ps, p ≠ []) :
    join sep ps ≠ [] := by
  obtain ⟨p, ps, rfl⟩ := List.exists_cons_of_ne_nil hne
  have hp := h p List.mem_cons_self
  cases ps with
  | nil => rwa [join_singleton]
  | cons q ps => simp [join_cons_cons, hp]

theorem collapse_eq_self_iff {t : Text} : collapse t = t ↔ trim t = t ∧ squeeze t = t := by
  constructor
  · intro ht
    have htrim : trim t = t := by rw [← ht, trim_collapse]
    exact ⟨htrim, by rw [← collapse_eq_squeeze htrim, ht]⟩
  · rintro ⟨htrim, hsqueeze⟩
    rw [collapse_eq_squeeze htrim, hsqueeze]

theorem collapse_of_solid {t : Text} (hne : t ≠ []) (h : ∀ c ∈ t, isBlank c = false) :
    collapse t = t := by
  rw [collapse, words_of_solid hne h, join_singleton]

/-- Texts on one line stand on one line with a space between them. -/
theorem collapse_append_space {s t : Text} (hs : s ≠ []) (ht : t ≠ []) (hs' : collapse s = s)
    (ht' : collapse t = t) : collapse (s ++ ' ' :: t) = s ++ ' ' :: t := by
  have hwords {u : Text} (hu : u ≠ []) (hu' : collapse u = u) : words u ≠ [] := by
    intro hnil
    rw [collapse, hnil] at hu'
    exact hu hu'.symm
  rw [collapse, words_append_cons_of_blank isBlank_space,
    join_append " " (hwords hs hs') (hwords ht ht')]
  show collapse s ++ (" ".toList ++ collapse t) = _
  rw [hs', ht']
  rfl

/-- Collapsed texts are joined to a collapsed text. -/
theorem collapse_join {ps : List Text} (h : ∀ p ∈ ps, p ≠ [] ∧ collapse p = p) :
    collapse (join ", " ps) = join ", " ps := by
  induction ps with
  | nil => rfl
  | cons p ps ih =>
    obtain ⟨hp, hcollapse⟩ := h p List.mem_cons_self
    cases ps with
    | nil => rwa [join_singleton]
    | cons q ps =>
      have htail (r : Text) (hr : r ∈ q :: ps) := h r (List.mem_cons_of_mem p hr)
      obtain ⟨htrim, hsqueeze⟩ := collapse_eq_self_iff.1 hcollapse
      obtain ⟨htrim', hsqueeze'⟩ := collapse_eq_self_iff.1 (ih htail)
      have hne := join_ne_nil ", " (List.cons_ne_nil q ps) fun r hr => (htail r hr).1
      rw [collapse_eq_self_iff, join_cons_cons]
      refine ⟨trim_around hp htrim hne htrim' ", ".toList, ?_⟩
      · rw [trim_eq_self_iff] at htrim htrim'
        rw [squeeze_append _ (.inl htrim.2), hsqueeze, squeeze_append _ (.inr htrim'.1), hsqueeze']
        rfl

end Synopsis.Text
