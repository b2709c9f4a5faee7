import Synopsis.Proofs.Go.Recovery

/-!
# Go: which windows count as declarations

A window is looked at twice: it is a fragment if a parenthesis follows the word `func` on its line and
before any brace, and the reader of declarations then takes it apart. The first look refuses nothing that
the reader accepts, as long as what stands in front of the first parenthesis is on one line and without
braces (`emitted_of_signature`). That is so for every method, and for a function whose name and
parameters share a line and have no type parameters between them. Type parameters may hold braces, in the
constraint `interface{ ~int }` say: the window takes them in and the reader reads them, but the function
is lost (`constrained_not_emitted`).
-/

namespace Synopsis.Go

open Text

/-- What stands between the word `func` of a window and its first parenthesis. -/
def opening (window : Text) : Text := before '(' ((keyword? "func" window).getD [])

/-- The first parenthesis is on the line of the word `func`, with no brace in front of it. -/
def OpensOnLine (window : Text) : Prop := ∀ c ∈ opening window, c ≠ '\n' ∧ c ≠ '{'

instance (window : Text) : Decidable (OpensOnLine window) :=
  List.decidableBAll (fun c => c ≠ '\n' ∧ c ≠ '{') (opening window)

/-! ## The first look -/

/-- The first stretch of a text with a property holds a character if nothing in front of the first such
    character lacks the property. -/
theorem mem_takeWhile_iff {p : Char → Bool} {c : Char} (hc : p c = true) {t : Text} :
    c ∈ t.takeWhile p ↔ c ∈ t ∧ ∀ d ∈ before c t, p d = true := by
  induction t with
  | nil => simp
  | cons x t ih =>
    by_cases hx : x = c
    · subst hx
      simp [List.takeWhile_cons_of_pos hc, before]
    · have hbefore : before c (x :: t) = x :: before c t :=
        List.takeWhile_cons_of_pos (decide_eq_true hx)
      rw [hbefore, List.mem_cons, List.forall_mem_cons, or_iff_right (Ne.symm hx)]
      cases hp : p x with
      | false => simp [hp]
      | true => simp [hp, ih, Ne.symm hx]

theorem isCandidate_iff {w t : Text} (h : keyword? "func" w = some t) :
    isCandidate w = true ↔ '(' ∈ t ∧ OpensOnLine w := by
  have hopening : opening w = before '(' t := by rw [opening, h, Option.getD_some]
  have hlook : isCandidate w = (t.takeWhile fun c => c ≠ '\n' && c ≠ '{').contains '(' := by
    rw [isCandidate, h]
    rfl
  rw [hlook, List.contains_iff_mem, mem_takeWhile_iff (by decide), OpensOnLine, hopening]
  simp

/-! ## The second look -/

theorem mem_of_mem_leading {o c x : Char} {t : Text} (h : x ∈ (leading o c t).2) : x ∈ t := by
  rw [leading] at h
  split at h
  · have hcut := balanced_append o c t
    exact hcut ▸ List.mem_append_right _ (mem_of_mem_trim h)
  · exact h

/-- What the reader finds in a text that it accepts: the parameters' parenthesis behind a name and its
    type parameters. -/
theorem exists_parts_of_signature {f : Text} {s : Signature} (h : signature f = .ok s) :
    ∃ t name u, trim f = "func".toList ++ t ∧
      name? (leading '(' ')' (trim t)).2 = some (name, u) ∧
      (leading '[' ']' (trim u)).2.head? = some '(' ∧
      ('[' ∉ s.name → present? (leading '[' ']' (trim u)).1 = none) ∧
      s.className = (present? (leading '(' ')' (trim t)).1).bind receiverType := by
  obtain ⟨t, name, u, params, rest, ht, hu, hgroup, rfl⟩ := exists_of_signature h
  refine ⟨t, name, u, after?_eq_some.1 ht, hu, head?_of_group? hgroup, fun hbare => ?_, rfl⟩
  cases hown : present? (leading '[' ']' (trim u)).1 with
  | none => rfl
  | some g => simp [hown] at hbare

/-- Only blanks stand in front of a parenthesis that trimming brings to the front. -/
theorem blank_before_of_trim {t : Text} (h : (trim t).head? = some '(') : blank (before '(' t) = true := by
  obtain ⟨g, g', hg, -, ht⟩ := exists_trim t
  obtain ⟨c, u, hu⟩ := List.exists_cons_of_ne_nil (l := trim t) (by rintro he; rw [he] at h; cases h)
  obtain rfl : c = '(' := by rwa [hu, List.head?_cons, Option.some_inj] at h
  rw [ht, hu, List.append_assoc, List.cons_append, before_append (not_mem_of_all hg (by decide))]
  exact hg

/-- Between a name and its parameters, type parameters that are not reported are a pair of brackets around
    blanks. -/
theorem of_mem_before_leading {t : Text} (habsent : present? (leading '[' ']' t).1 = none)
    (hopen : (leading '[' ']' t).2.head? = some '(') {c : Char} (hc : c ∈ before '(' t) :
    c = '[' ∨ c = ']' ∨ isBlank c = true := by
  by_cases hhead : t.head? = some '['
  · rw [leading, if_pos hhead] at habsent hopen
    obtain ⟨z, rfl⟩ := List.head?_eq_some_iff.1 hhead
    cases hz : depthAfter '[' ']' 1 z with
    | some e =>
      rw [balanced_of_open hz] at hopen
      cases hopen
    | none =>
      obtain ⟨s, r, rfl, hs⟩ := exists_close hz
      have hspan := balanced_of_depthAfter hs (by decide) r
      rw [List.cons_append] at hspan
      rw [hspan] at habsent hopen
      have hnone : nonempty? (trim (unwrap ('[' :: s ++ [']']))) = none := habsent
      rw [unwrap_cons_concat, nonempty?_eq_none, trim_eq_nil_iff] at hnone
      have hrest : blank (before '(' r) = true := blank_before_of_trim hopen
      have hfree : '(' ∉ '[' :: s ++ [']'] := by
        simp [not_mem_of_all (x := '(') hnone (by decide)]
      have hcut := before_append_of_not_mem hfree r
      rw [List.append_assoc] at hcut
      rw [show before '(' ('[' :: (s ++ ']' :: r)) = '[' :: s ++ [']'] ++ before '(' r from hcut] at hc
      simp only [List.cons_append, List.append_assoc, List.mem_cons, List.mem_append,
        List.nil_append] at hc
      rcases hc with rfl | hc | rfl | hc
      · exact .inl rfl
      · exact .inr (.inr (List.all_eq_true.1 hnone c hc))
      · exact .inr (.inl rfl)
      · exact .inr (.inr (List.all_eq_true.1 hrest c hc))
  · rw [leading, if_neg hhead] at hopen
    obtain ⟨z, rfl⟩ := List.head?_eq_some_iff.1 hopen
    simp [before] at hc

/-! ## Windows -/

theorem exists_of_mem_windows {t w : Text} (h : w ∈ windows t) :
    w <:+: t ∧ ∃ u, w = "func".toList ++ u ∧ u.head?.any isBlank = true := by
  obtain ⟨site, hsite, rfl⟩ := List.mem_map.1 h
  obtain ⟨a, b, rfl, -, hread⟩ := exists_cut_of_mem_sites hsite
  obtain ⟨-, u, -, hblank, hw, -⟩ := window?_eq_some.1 hread
  refine ⟨⟨a, site.rest, ?_⟩, _, hw, ?_⟩
  · rw [List.append_assoc, ← (eq_append_of_window? hread).2]
    rfl
  · -- the window does not end at the blank behind its word, as no list has been closed yet
    cases u with
    | nil => cases hblank
    | cons c u =>
      have hcurly : c ≠ '{' := ne_of_blank hblank (by decide)
      rw [windowFrom, if_neg (by simp), if_neg (by simp [hcurly])]
      exact hblank

/-- What stands in front of the first parenthesis is the same for the first look at a window and for the
    reader, which trims. -/
theorem isCandidate_iff_of_mem_windows {source w t : Text} (hw : w ∈ windows source)
    (ht : trim w = "func".toList ++ t) (hopen : '(' ∈ trim t) :
    opening w = before '(' (trim t) ∧ (isCandidate w = true ↔ OpensOnLine w) := by
  obtain ⟨-, u, rfl, hu⟩ := exists_of_mem_windows hw
  obtain ⟨k, -, hcut, -⟩ := exists_trimEnd ("func".toList ++ u)
  obtain ⟨g, g', hg, -, htrim⟩ := exists_trim t
  have hstart : trimStart ("func".toList ++ u) = "func".toList ++ u := trimStart_eq_self rfl
  rw [trim, hstart] at ht
  rw [ht, List.append_assoc] at hcut
  have hrest : u = g ++ (trim t ++ (g' ++ k)) := by
    rw [List.append_cancel_left hcut, ← List.append_assoc, ← List.append_assoc, ← htrim]
  have hhead := head?_trim t
  rw [head?_of_isPrefix (List.prefix_append _ (g' ++ k)) (List.ne_nil_of_mem hopen)] at hhead
  have hkeyword : keyword? "func" ("func".toList ++ u) = some (trim t ++ (g' ++ k)) := by
    rw [keyword?, keywordBy?, after?_append, Option.bind_some, skip1?_eq, if_pos hu, hrest]
    exact congrArg some ((trimStart_append_of_blank hg _).trans (trimStart_eq_self hhead))
  constructor
  · rw [opening, hkeyword, Option.getD_some, before_append_of_mem hopen]
  · rw [isCandidate_iff hkeyword]
    exact and_iff_right (List.mem_append_left _ hopen)

theorem signature_trim (w : Text) : signature (trim w) = signature w := by
  rw [signature, signature, trim_trim]

/-- Trimming takes nothing but blanks away in front of a character that is none. -/
theorem mem_before_trim {c d : Char} {t : Text} (hd : isBlank d = false) (hmem : d ∈ trim t)
    (hc : c ∈ before d t) : c ∈ before d (trim t) ∨ isBlank c = true := by
  obtain ⟨g, g', hg, -, ht⟩ := exists_trim t
  rw [ht, List.append_assoc, before_append_of_not_mem (not_mem_of_all hg hd),
    before_append_of_mem hmem] at hc
  rcases List.mem_append.1 hc with hc | hc
  · exact .inr (List.all_eq_true.1 hg c hc)
  · exact .inl hc

/-- What a readable window has in front of its first parenthesis: nothing for a method; for a function
    without type parameters no brace. -/
theorem exists_opening {w : Text} {s : Signature} (hs : signature w = .ok s) :
    ∃ t, trim w = "func".toList ++ t ∧ '(' ∈ trim t ∧
      (s.className.isSome = true → before '(' (trim t) = []) ∧
      ('[' ∉ s.name → '{' ∉ before '(' (trim t)) := by
  obtain ⟨t, name, u, ht, hname, hopen, hown, howner⟩ := exists_parts_of_signature hs
  have hmem : '(' ∈ trim u := mem_of_mem_leading (List.mem_of_mem_head? hopen)
  have hword := all_isWord_of_isName (isName_of_name? hname)
  have hcut := (eq_append_of_nameOf? hname).1
  have hreach : '(' ∈ trim t := by
    refine mem_of_mem_leading (o := '(') (c := ')') ?_
    rw [hcut]
    exact List.mem_append_right name (mem_of_mem_trim hmem)
  refine ⟨t, ht, hreach, ?_, ?_⟩
  · intro howned
    by_cases hhead : (trim t).head? = some '('
    · exact before_eq_nil_of_head? hhead
    · rw [howner, leading, if_neg hhead] at howned
      cases howned
  · intro hbare hbrace
    by_cases hhead : (trim t).head? = some '('
    · rw [before_eq_nil_of_head? hhead] at hbrace
      cases hbrace
    · rw [leading, if_neg hhead] at hcut
      have hcut : trim t = name ++ u := hcut
      rw [hcut, before_append_of_not_mem (not_mem_of_all hword (by decide))] at hbrace
      rcases List.mem_append.1 hbrace with hbrace | hbrace
      · exact not_mem_of_all hword (by decide) hbrace
      · rcases mem_before_trim (by decide) hmem hbrace with hbrace | hblank
        · rcases of_mem_before_leading (hown hbare) hopen hbrace with h | h | h <;> revert h <;> decide
        · revert hblank
          decide

/-- A window that can be read is emitted exactly if its first parenthesis is on the line of the word
    `func` with no brace in front of it. Methods always open so, and functions without type parameters
    whose name and parameters share that line. -/
theorem emitted_of_signature {source w : Text} {s : Signature}
    (hw : w ∈ windows (CommentStyle.slashes.strip source)) (hs : signature w = .ok s) :
    (trim w ∈ Language.go.fragments source ↔ OpensOnLine w) ∧
      (OpensOnLine w → s ∈ Language.go.extract source) ∧
      (s.className.isSome = true ∨ ('[' ∉ s.name ∧ '\n' ∉ opening w) → OpensOnLine w) := by
  obtain ⟨t, ht, hopen, howned, hbare⟩ := exists_opening hs
  obtain ⟨hopening, hcandidate⟩ := isCandidate_iff_of_mem_windows hw ht hopen
  refine ⟨⟨?_, ?_⟩, ?_, ?_⟩
  · intro hmem
    -- the fragment comes from a window with the same trimmed text, which opens in the same way
    obtain ⟨-, v, hv, htrim⟩ := mem_distinct.1 hmem
    obtain ⟨hv, hlook⟩ := List.mem_filter.1 hv
    obtain ⟨hopening', hcandidate'⟩ := isCandidate_iff_of_mem_windows hv (htrim.trans ht) hopen
    have hline := hcandidate'.1 hlook
    rwa [OpensOnLine, hopening', ← hopening] at hline
  · intro hline
    refine mem_distinct.2 ⟨?_, w, List.mem_filter.2 ⟨hw, hcandidate.2 hline⟩, rfl⟩
    rw [ht]
    exact List.cons_ne_nil _ _
  · intro hline
    refine mem_extract_iff.2 ⟨?_, w, hw, hcandidate.2 hline, by rwa [signature_trim]⟩
    obtain ⟨hpart, u, rfl, -⟩ := exists_of_mem_windows hw
    have hletter : 'f' ∈ source := CommentStyle.mem_of_mem_strip (hpart.subset List.mem_cons_self)
    exact List.all_eq_false.2 ⟨'f', hletter, by decide⟩
  · rintro (hmethod | ⟨hname, hline⟩) c hc
    · rw [hopening, howned hmethod] at hc
      cases hc
    · have hbrace := hbare hname
      rw [← hopening] at hbrace
      exact ⟨fun he => hline (he ▸ hc), fun he => hbrace (he ▸ hc)⟩

/-- A function with a plain constraint. -/
def genericWindow : Text := "func Map[T any](x T) T \x7b".toList

/-- What it declares. -/
def genericSignature : Signature where
  name := "Map[T any]".toList
  parameters := [{ name := ['x'], type := some ['T'] }]
  returnType := some ['T']

theorem emitted_of_signature_genericWindow :
    genericWindow ∈ windows (CommentStyle.slashes.strip (genericWindow ++ "\n\x7d\n".toList)) ∧
      signature genericWindow = .ok genericSignature ∧
      genericSignature ∈ Language.go.extract (genericWindow ++ "\n\x7d\n".toList) := by
  have hw : genericWindow ∈
      windows (CommentStyle.slashes.strip (genericWindow ++ "\n\x7d\n".toList)) := by
    decide +kernel
  have hs : signature genericWindow = .ok genericSignature := by rfl
  exact ⟨hw, hs, (emitted_of_signature hw hs).2.1 (by decide +kernel)⟩

/-- A function whose constraint is written with braces. -/
def constrainedWindow : Text := "func F[T interface\x7b ~int \x7d](x T) T \x7b".toList

/-- It has a window, and the window declares it, but there is no fragment. -/
theorem constrained_not_emitted :
    constrainedWindow ∈ windows (CommentStyle.slashes.strip (constrainedWindow ++ "\n\x7d\n".toList)) ∧
      (signature constrainedWindow).toOption.map (·.name) =
        some "F[T interface\x7b ~int \x7d]".toList ∧
      ¬ OpensOnLine constrainedWindow ∧
      Language.go.fragments (constrainedWindow ++ "\n\x7d\n".toList) = [] := by
  decide +kernel

end Synopsis.Go
