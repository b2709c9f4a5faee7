import Synopsis.Language.GoWindow
import Synopsis.Proofs.Nesting.Nested
import Synopsis.Proofs.Scan.Site

/-!
# Go: what a window runs through

A window runs through a text without stopping in it when the text has neither braces nor line ends
(`passes_of_depthAfter`), when it is well nested and stands inside a group (`passes_of_nested`), or when
it is well nested and every brace outside its groups follows the word `interface` or `struct`
(`passes_of_braced`).
-/

namespace Synopsis.Go

open Text Brackets

/-- A window that has read `before`, reversed, and has `p` parentheses and `s` square brackets open
    runs through a text and then has `p'` and `s'` of them open. -/
def Passes (before u : Text) (p s p' s' : Nat) : Prop :=
  ∀ closed t, ∃ closed', windowFrom 0 before p s closed (u ++ t) =
    (u ++ (windowFrom 0 (u.reverse ++ before) p' s' closed' t).1,
      (windowFrom 0 (u.reverse ++ before) p' s' closed' t).2)

theorem Passes.append {before u v : Text} {p s p' s' p'' s'' : Nat} (hu : Passes before u p s p' s')
    (hv : Passes (u.reverse ++ before) v p' s' p'' s'') : Passes before (u ++ v) p s p'' s'' := by
  intro closed t
  obtain ⟨closed₁, h₁⟩ := hu closed (v ++ t)
  obtain ⟨closed₂, h₂⟩ := hv closed₁ t
  refine ⟨closed₂, ?_⟩
  rw [List.append_assoc, h₁, h₂, List.reverse_append, List.append_assoc, List.append_assoc]

theorem passes_nil (before : Text) (p s : Nat) : Passes before [] p s p s :=
  fun closed _ => ⟨closed, rfl⟩

/-- Whether a window may stop at a character. -/
def isStop (p s : Nat) (c : Char) : Bool := (c == '\n' || c == '{') && p == 0 && s == 0

theorem passes_singleton {c : Char} {p s : Nat} (h : isStop p s c = false) (before : Text) :
    Passes before [c] p s
      (if c = '(' then p + 1 else if c = ')' then p - 1 else p)
      (if c = '[' then s + 1 else if c = ']' then s - 1 else s) := by
  intro closed t
  have hline : (c = '\n' && closed && p == 0 && s == 0) = false := by
    by_cases hc : c = '\n'
    · subst hc
      have hdeep : (p == 0 && s == 0) = false := h
      rw [Bool.and_assoc, hdeep, Bool.and_false]
    · simp [hc]
  have hbrace : (c = '{' && p == 0 && s == 0) = false := by
    by_cases hc : c = '{'
    · subst hc
      have hdeep : (p == 0 && s == 0) = false := h
      rw [Bool.and_assoc, hdeep, Bool.and_false]
    · simp [hc]
  refine ⟨closed || (c = ')' && (if c = '(' then p + 1 else if c = ')' then p - 1 else p) == 0), ?_⟩
  rw [List.singleton_append, windowFrom, hline, if_neg Bool.false_ne_true, hbrace,
    if_neg Bool.false_ne_true]
  rfl

/-- A text without braces and line ends is run through whatever is open around it. -/
theorem passes_of_depthAfter {u : Text} (hu : ∀ c ∈ u, c ≠ '\n' ∧ c ≠ '{') {p s p' s' : Nat}
    (hp : depthAfter '(' ')' (p + 1) u = some (p' + 1))
    (hs : depthAfter '[' ']' (s + 1) u = some (s' + 1)) (before : Text) :
    Passes before u p s p' s' := by
  induction u generalizing p s before with
  | nil =>
    obtain rfl : p = p' := by simpa [depthAfter] using hp
    obtain rfl : s = s' := by simpa [depthAfter] using hs
    exact passes_nil before p s
  | cons c u ih =>
    have hc := hu c List.mem_cons_self
    have hstop : isStop p s c = false := by simp [isStop, hc.1, hc.2]
    have hstep := passes_singleton hstop before
    have htail (x : Char) (hx : x ∈ u) := hu x (List.mem_cons_of_mem c hx)
    exact hstep.append (ih htail (depthAfter_of_cons hp) (depthAfter_of_cons hs) _)

/-- A nested text is run through as a whole where a group is open around it. -/
theorem passes_of_nested {commas : Bool} {u : Text} (h : Nested commas u) {p s : Nat}
    (hps : 1 ≤ p ∨ 1 ≤ s) (before : Text) : Passes before u p s p s := by
  -- Inside parentheses or brackets no character stops the scan, not even a brace or a line end.
  have hstop {p s : Nat} (hps : 1 ≤ p ∨ 1 ≤ s) (c : Char) : isStop p s c = false := by
    have : (p == 0 && s == 0) = false := by
      rcases hps with h | h
      · simp [Nat.ne_of_gt h]
      · simp [Nat.ne_of_gt h]
    rw [isStop, Bool.and_assoc, this, Bool.and_false]
  induction h generalizing p s before with
  | nil => exact passes_nil before p s
  | @plain _ c u hc _ _ ih =>
    have hround := Nested.ne_of_isBracket (o := '(') (c := ')') (by decide) hc
    have hsquare := Nested.ne_of_isBracket (o := '[') (c := ']') (by decide) hc
    have hstep := passes_singleton (hstop hps c) before
    rw [if_neg hround.1, if_neg hround.2, if_neg hsquare.1, if_neg hsquare.2] at hstep
    exact hstep.append (ih hps _)
  | @group _ o c u v hpair _ _ ihu ihv =>
    have hopen := passes_singleton (hstop hps o) before
    simp only [noAngle, List.mem_cons, List.not_mem_nil, or_false, Prod.mk.injEq] at hpair
    rcases hpair with ⟨rfl, rfl⟩ | ⟨rfl, rfl⟩ | ⟨rfl, rfl⟩
    · have hinner := hopen.append (ihu (p := p + 1) (s := s) (.inl (by omega)) _)
      have hclose := hinner.append (passes_singleton (hstop (.inl (by omega)) ')') _)
      have hall := hclose.append (ihv hps _)
      simpa using hall
    · have hinner := hopen.append (ihu (p := p) (s := s + 1) (.inr (by omega)) _)
      have hclose := hinner.append (passes_singleton (hstop (.inr (by omega)) ']') _)
      have hall := hclose.append (ihv hps _)
      simpa using hall
    · have hinner := hopen.append (ihu (p := p) (s := s) hps _)
      have hclose := hinner.append (passes_singleton (hstop hps '}') _)
      have hall := hclose.append (ihv hps _)
      simpa using hall

theorem windowFrom_skip (u t before : Text) (p s : Nat) (closed : Bool) :
    windowFrom u.length before p s closed (u ++ t) =
      (u ++ (windowFrom 0 (u.reverse ++ before) p s closed t).1,
        (windowFrom 0 (u.reverse ++ before) p s closed t).2) := by
  induction u generalizing before with
  | nil => rfl
  | cons c u ih =>
    rw [List.length_cons, List.cons_append, windowFrom, ih, List.reverse_cons, List.append_assoc,
      List.singleton_append]
    rfl

/-- The braces of a type are run through with all that stands in them. -/
theorem passes_braces {before u : Text} (hbefore : endsInBracedType before = true)
    (hu : depthAfter '{' '}' 1 u = some 1) : Passes before ('{' :: u ++ ['}']) 0 0 0 0 := by
  intro closed t
  have hbraces : braces ('{' :: (u ++ '}' :: t)) = ('{' :: u ++ ['}'], t) :=
    balanced_of_depthAfter hu (by decide) t
  have hskip := windowFrom_skip (u ++ ['}']) t ('{' :: before) 0 0 closed
  refine ⟨closed, ?_⟩
  rw [List.append_assoc, List.singleton_append] at hskip
  rw [List.append_assoc, List.singleton_append, List.cons_append, windowFrom, if_neg (by simp),
    if_pos (by simp), if_pos hbefore, hbraces]
  rw [show ('{' :: u ++ ['}']).length - 1 = (u ++ ['}']).length by simp, hskip]
  simp [keep]

theorem passes_parens {commas : Bool} {u : Text} (hu : Nested commas u) (before : Text) :
    Passes before ('(' :: u ++ [')']) 0 0 0 0 := by
  have hopen := passes_singleton (p := 0) (s := 0) (c := '(') rfl before
  have hinner := hopen.append (passes_of_nested hu (.inl (Nat.le_refl 1)) _)
  exact hinner.append (passes_singleton (p := 1) (s := 0) (c := ')') rfl _)

/-- A nested text on one line is run through where no group is open, if each of its braces outside
    parentheses follows the word of a braced type. -/
theorem passes_of_braced {commas : Bool} {u before : Text} (h : Nested commas u) (hline : '\n' ∉ u)
    (hbrace : ∀ a b, u = a ++ '{' :: b → a.count '(' = a.count ')' →
      endsInBracedType (a.reverse ++ before) = true) : Passes before u 0 0 0 0 := by
  induction h generalizing before with
  | nil => exact passes_nil before 0 0
  | @plain _ c u hc _ _ ih =>
    have hround := Nested.ne_of_isBracket (o := '(') (c := ')') (by decide) hc
    have hsquare := Nested.ne_of_isBracket (o := '[') (c := ']') (by decide) hc
    have hcurly := Nested.ne_of_isBracket (o := '{') (c := '}') (by decide) hc
    simp only [List.mem_cons, not_or] at hline
    have hstop : isStop 0 0 c = false := by simp [isStop, Ne.symm hline.1, hcurly.1]
    have hstep := passes_singleton hstop before
    rw [if_neg hround.1, if_neg hround.2, if_neg hsquare.1, if_neg hsquare.2] at hstep
    refine hstep.append (ih hline.2 fun a b hu hcount => ?_)
    have hends := hbrace (c :: a) b (by rw [hu, List.cons_append])
      (by rw [List.count_cons_of_ne hround.1, List.count_cons_of_ne hround.2, hcount])
    simpa using hends
  | @group _ o c u v hpair hu hv ihu ihv =>
    have hlinev : '\n' ∉ v := fun hmem => hline (by simp [hmem])
    have hgroup : Nested true (o :: u ++ [c]) := .group hpair hu .nil
    -- the braces after the group follow the same words, as the group has its parentheses matched
    have hrest : Passes ((o :: u ++ [c]).reverse ++ before) v 0 0 0 0 := by
      refine ihv hlinev fun a b hv hcount => ?_
      have hends := hbrace ((o :: u ++ [c]) ++ a) b (by simp [hv])
        (by rw [List.count_append, hgroup.count_eq, hcount, ← List.count_append])
      rwa [List.reverse_append, List.append_assoc] at hends
    have hfirst : Passes before (o :: u ++ [c]) 0 0 0 0 := by
      have hpair' := hpair
      simp only [noAngle, List.mem_cons, List.not_mem_nil, or_false, Prod.mk.injEq] at hpair'
      rcases hpair' with ⟨rfl, rfl⟩ | ⟨rfl, rfl⟩ | ⟨rfl, rfl⟩
      · exact passes_parens hu before
      · have hopen := passes_singleton (p := 0) (s := 0) (c := '[') rfl before
        have hinner := hopen.append (passes_of_nested hu (.inr (Nat.le_refl 1)) _)
        exact hinner.append (passes_singleton (p := 0) (s := 1) (c := ']') rfl _)
      · exact passes_braces (hbrace [] _ rfl rfl) (hu.depthAfter hpair (Nat.le_refl 1))
    have hall := hfirst.append hrest
    rwa [List.append_assoc, List.singleton_append] at hall

/-! ## Braced types -/

/-- The words whose braces belong to a type. -/
def bracedWords : List String := ["interface", "struct"]

/-- A text ends in a word. -/
def EndsInWord (word : String) (t : Text) : Prop :=
  ∃ a, t = a ++ word.toList ∧ notAfter isWord a.getLast? = true

theorem endsInWord_iff {word : String} {t : Text} :
    EndsInWord word t ↔ word.toList <:+ t ∧
      notAfter isWord (t.take (t.length - word.toList.length)).getLast? = true := by
  constructor
  · rintro ⟨a, rfl, ha⟩
    refine ⟨List.suffix_append a _, ?_⟩
    rwa [List.length_append, Nat.add_sub_cancel, List.take_left]
  · rintro ⟨⟨a, rfl⟩, ha⟩
    rw [List.length_append, Nat.add_sub_cancel, List.take_left] at ha
    exact ⟨a, rfl, ha⟩

instance (word : String) (t : Text) : Decidable (EndsInWord word t) :=
  decidable_of_iff _ endsInWord_iff.symm

theorem notBefore_reverse_append {p : Char → Bool} {a before : Text}
    (ha : notAfter p a.getLast? = true) (hbefore : notBefore p before = true) :
    notBefore p (a.reverse ++ before) = true := by
  cases hl : a.getLast? with
  | none =>
    rw [List.getLast?_eq_none_iff.1 hl]
    exact hbefore
  | some x =>
    rw [hl] at ha
    rw [notBefore, List.head?_append, List.head?_reverse, hl]
    exact ha

/-- A brace directly after the word of a braced type belongs to the type. -/
theorem endsInBracedType_of_endsInWord {w : String} (hw : w ∈ bracedWords) {t before : Text}
    (h : EndsInWord w t) (hbefore : notBefore isWord before = true) :
    endsInBracedType (t.reverse ++ before) = true := by
  obtain ⟨a, rfl, ha⟩ := h
  have hedge := notBefore_reverse_append ha hbefore
  have hsolid : w.toList.reverse.head?.any isBlank = false ∧ w.toList.reverse ≠ [] ∧ w.length ≤ 16 := by
    revert w
    decide
  obtain ⟨hhead, hne, hlen⟩ := hsolid
  have hcut : (w.toList.reverse ++ (a.reverse ++ before)).takeWhile isBlank = [] ∧
      (w.toList.reverse ++ (a.reverse ++ before)).dropWhile isBlank =
        w.toList.reverse ++ (a.reverse ++ before) := by
    obtain ⟨x, xs, hx⟩ := List.exists_cons_of_ne_nil hne
    rw [hx] at hhead ⊢
    exact takeWhile_append_of_all (r := []) rfl (by simpa [notBefore] using hhead)
  rw [List.reverse_append, List.append_assoc, endsInBracedType]
  refine List.any_eq_true.2 ⟨w, hw, ?_⟩
  rw [hcut.1, hcut.2, after?_append, Option.any_some, hedge, List.length_nil, Nat.zero_add,
    decide_eq_true hlen]
  rfl

/-- A brace a space after a text that ends in no such word does not. -/
theorem exists_endsInWord {t before : Text} (hlast : t.getLast?.any isBlank = false) (hopen : '(' ∈ t)
    (h : endsInBracedType (' ' :: (t.reverse ++ before)) = true) :
    ∃ w ∈ bracedWords, EndsInWord w t := by
  have hstart : (t.reverse ++ before).head?.any isBlank = false := by
    cases hl : t.getLast? with
    | none => rw [List.getLast?_eq_none_iff.1 hl] at hopen; cases hopen
    | some x =>
      rw [hl] at hlast
      rw [List.head?_append, List.head?_reverse, hl]
      exact hlast
  have hrest : (' ' :: (t.reverse ++ before)).dropWhile isBlank = t.reverse ++ before := by
    rw [List.dropWhile_cons_of_pos isBlank_space]
    exact trimStart_eq_self hstart
  rw [endsInBracedType, hrest] at h
  obtain ⟨w, hw, h⟩ := List.any_eq_true.1 h
  refine ⟨w, hw, ?_⟩
  obtain ⟨x, hafter, hedge⟩ := (Option.any_eq_true _ _).1 (Bool.and_eq_true_iff.1 h).2
  rw [after?_eq_some] at hafter
  rcases List.append_eq_append_iff.1 hafter with ⟨y, hy, -⟩ | ⟨y, hy, rfl⟩
  · -- the word would hold the parenthesis
    have hmem : '(' ∈ w.toList.reverse := by
      rw [hy]
      simp [hopen]
    have hfree : ∀ w ∈ bracedWords, '(' ∉ w.toList.reverse := by decide
    exact absurd hmem (hfree w hw)
  · refine ⟨y.reverse, ?_, ?_⟩
    · have := congrArg List.reverse hy
      rwa [List.reverse_reverse, List.reverse_append, List.reverse_reverse] at this
    · rw [List.getLast?_reverse]
      cases y with
      | nil => rfl
      | cons c y => exact hedge

/-- A window ends at the brace of a body. -/
theorem windowFrom_body {before u t : Text} (h : Passes before u 0 0 0 0)
    (hend : endsInBracedType (u.reverse ++ before) = false) :
    windowFrom 0 before 0 0 false (u ++ '{' :: t) = (u ++ ['{'], t) := by
  obtain ⟨closed, hpass⟩ := h false ('{' :: t)
  rw [hpass, windowFrom, if_neg (by simp), if_pos (by simp), hend]
  rfl

end Synopsis.Go
