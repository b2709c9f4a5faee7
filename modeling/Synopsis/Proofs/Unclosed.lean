import Synopsis.Proofs.Language

/-!
# Unterminated parameter lists

A list whose opening parenthesis is never closed is one span to the end of the text
(`parens_of_unclosed`), and whether it counts as a list is decided by the last character of that span.
So a fragment with such a list is rejected for it, unless the list happens to end in the closing
parenthesis of an inner group (`signature_of_unclosed`); an arrow is missed in any case. In that one case
every language takes the list for a whole one (`signature_of_innerGroup`).
-/

namespace Synopsis

open Text

/-- The first parenthesis of a text is open to the end: on the way, more are opened than closed. -/
def Unclosed (t : Text) : Prop := ∀ u, u <+: t → u ≠ [] → u.count ')' < u.count '('

theorem unclosed_iff {t : Text} : Unclosed t ↔
    ∀ n < t.length, (t.take (n + 1)).count ')' < (t.take (n + 1)).count '(' := by
  constructor
  · intro h n hn
    refine h _ (List.take_prefix (n + 1) t) ?_
    cases t with
    | nil => cases hn
    | cons c t => exact List.cons_ne_nil c _
  · rintro h u ⟨v, rfl⟩ hne
    obtain ⟨n, hn⟩ := Nat.exists_eq_succ_of_ne_zero (mt List.length_eq_zero_iff.1 hne)
    have hcount := h n (by rw [List.length_append]; omega)
    rwa [← Nat.succ_eq_add_one, ← hn, List.take_left] at hcount

instance : DecidablePred Unclosed := fun _ => decidable_of_iff _ unclosed_iff.symm

/-- A list that is never closed is one span. -/
theorem parens_of_unclosed {t : Text} (h : Unclosed t) : parens t = (t, []) := by
  cases t with
  | nil => rfl
  | cons c u =>
    obtain rfl : c = '(' := by
      have hfirst := h [c] ⟨u, rfl⟩ (List.cons_ne_nil c [])
      by_cases hc : c = '('
      · exact hc
      · rw [List.count_cons_of_ne hc] at hfirst
        cases hfirst
    have hopen : ∃ e, depthAfter '(' ')' 1 u = some e := by
      cases hu : depthAfter '(' ')' 1 u with
      | some e => exact ⟨e, rfl⟩
      | none =>
        -- up to the close of the first parenthesis, as many are closed as opened
        obtain ⟨v, r, rfl, hv⟩ := exists_close hu
        have hcount := count_of_depthAfter (by decide) hv (Nat.le_refl 1)
        have hmore := h ('(' :: v ++ [')']) ⟨r, by simp⟩ (by simp)
        have hclosed : ('(' :: v ++ [')']).count ')' = v.count ')' + 1 := by
          rw [List.count_append, List.count_cons_of_ne (by decide)]
          rfl
        have hopened : ('(' :: v ++ [')']).count '(' = v.count '(' + 1 := by
          rw [List.count_append, List.count_cons_self]
          rfl
        omega
    obtain ⟨e, he⟩ := hopen
    have hspan := spanFrom_of_depthAfter he []
    rw [List.append_nil] at hspan
    show spanFrom '(' ')' 0 ('(' :: u) = ('(' :: u, [])
    rw [spanFrom, if_pos rfl, hspan]
    simp [spanFrom, keep]

theorem group?_of_unclosed {t : Text} (h : Unclosed t) (hend : t.getLast? ≠ some ')') :
    group? t = none := by
  unfold group?
  rw [parens_of_unclosed h]
  exact if_neg hend

/-! ## Fragments whose list cannot be read -/

theorem Go.signature_of_list? {f t : Text} (h : list? f = some t) (hgroup : group? t = none) :
    signature f = .error .unterminatedParameters := by
  obtain ⟨u, hu, h⟩ := Option.bind_eq_some_iff.1 h
  obtain ⟨⟨name, v⟩, hv, h⟩ := Option.bind_eq_some_iff.1 h
  obtain ⟨rfl, hopen⟩ := ahead?_eq_some.1 h
  unfold signature
  simp only [hu, hv, hgroup, hopen, ne_eq, not_true_eq_false, if_false]
  rfl

theorem Python.signature_of_list? {f t : Text} (h : list? f = some t) (hgroup : group? t = none) :
    signature f = .error .unterminatedParameters := by
  obtain ⟨⟨name, v⟩, hv, h⟩ := Option.bind_eq_some_iff.1 h
  obtain ⟨rfl, hopen⟩ := ahead?_eq_some.1 h
  unfold signature
  simp only [hv, hgroup, hopen, ne_eq, not_true_eq_false, if_false]
  rfl

theorem Rust.signature_of_list? {f t : Text} (h : list? f = some t) (hgroup : group? t = none) :
    signature f = .error .unterminatedParameters := by
  obtain ⟨⟨name, v⟩, hv, h⟩ := Option.bind_eq_some_iff.1 h
  obtain ⟨rfl, -⟩ := ahead?_eq_some.1 h
  unfold signature
  simp only [hv, hgroup]
  rfl

theorem Php.signature_of_list? {f t : Text} (h : list? f = some t) (hgroup : group? t = none) :
    signature f = .error .unterminatedParameters := by
  unfold list? at h
  split at h
  · cases h
  · next hentry =>
    have hnone : typeName? (trim f) = none := by simpa using hentry
    obtain ⟨⟨name, v⟩, hv, h⟩ := Option.bind_eq_some_iff.1 h
    obtain ⟨rfl, hopen⟩ := ahead?_eq_some.1 h
    unfold signature
    simp only [hnone, hv, hgroup, hopen, ne_eq, not_true_eq_false, if_false]
    rfl

theorem Java.signature_of_list? {f t : Text} (h : list? f = some t) (hgroup : group? t = none) :
    signature f = .error .unterminatedParameters := by
  unfold list? at h
  split at h
  · cases h
  · next hentry =>
    have hnone : after? "class ".toList (trim f) = none := by simpa using hentry
    obtain ⟨⟨head, rest⟩, hcut, rfl⟩ := Option.map_eq_some_iff.1 h
    have hgroup : group? ((splitOwner (trim f)).1.drop head.length) = none := hgroup
    unfold signature
    simp only [hnone, hcut, hgroup]
    rfl

theorem Script.signature_of_list? {f t : Text} (h : list? f = some t) (harrow : arrowList? f = none)
    (hgroup : group? t = none) : signature f = .error .unterminatedParameters := by
  unfold list? at h
  rw [harrow, Option.none_or] at h
  obtain ⟨⟨header, rest⟩, hheader, rfl⟩ := Option.map_eq_some_iff.1 h
  have hhead : arrowHead? (trim (splitOwner f).1) = none := Option.map_eq_none_iff.1 harrow
  unfold signature
  simp only [hhead, hheader, hgroup]
  rfl

theorem Script.signature_of_arrowList? {f t : Text} (h : arrowList? f = some t)
    (hreturn : arrowReturn? (parens t).2 = none) : signature f = .error .malformedArrow := by
  obtain ⟨⟨⟨name, isAsync⟩, rest⟩, hhead, rfl⟩ := Option.map_eq_some_iff.1 h
  unfold signature
  simp only [hhead, hreturn]
  rfl

/-- A list that cannot be read to its end is the reason why a fragment is rejected. -/
theorem Language.signature_of_list? {l : Language} {f t : Text} (h : l.list? f = some t)
    (harrow : l.isArrow f = true → Script.arrowReturn? (parens t).2 = none)
    (hgroup : l.isArrow f = false → group? t = none) :
    l.signature f =
      .error (if l.isArrow f then .malformedArrow else .unterminatedParameters) := by
  cases l with
  | go => exact Go.signature_of_list? h (hgroup rfl)
  | java => exact Java.signature_of_list? h (hgroup rfl)
  | python => exact Python.signature_of_list? h (hgroup rfl)
  | rust => exact Rust.signature_of_list? h (hgroup rfl)
  | php => exact Php.signature_of_list? h (hgroup rfl)
  | typescript =>
    have hbind : Language.typescript.isArrow f = (Script.arrowList? f).isSome := rfl
    cases hbound : Script.arrowList? f with
    | none =>
      have hplain : Language.typescript.isArrow f = false := by
        rw [hbind, hbound]
        rfl
      rw [hplain]
      exact Script.signature_of_list? h hbound (hgroup hplain)
    | some u =>
      have hlist : Script.list? f = some u := by
        unfold Script.list?
        rw [hbound]
        rfl
      obtain rfl : t = u := Option.some.inj (h.symm.trans hlist)
      have hbinds : Language.typescript.isArrow f = true := by
        rw [hbind, hbound]
        rfl
      rw [hbinds]
      exact Script.signature_of_arrowList? hbound (harrow hbinds)

/-- A fragment whose parameter list is never closed is rejected for it, unless the list happens to end
    in a closing parenthesis and no arrow is called for. A fragment without a list has no signature,
    or is the bare name of a type. -/
theorem signature_of_unclosed (l : Language) (f : Text) :
    (∀ t, l.list? f = some t → Unclosed t → t.getLast? ≠ some ')' ∨ l.isArrow f = true →
      l.signature f = .error (if l.isArrow f then .malformedArrow else .unterminatedParameters)) ∧
    (l.list? f = none → ∀ s, l.signature f = .ok s → s = { name := s.name }) := by
  constructor
  · intro t hlist hopen hend
    refine Language.signature_of_list? hlist ?_ ?_
    · -- nothing is left behind the list for an arrow to stand in
      intro _
      rw [parens_of_unclosed hopen]
      rfl
    · intro hplain
      refine group?_of_unclosed hopen (hend.resolve_right ?_)
      rw [hplain]
      exact Bool.false_ne_true
  · intro hnone s hs
    rcases Language.read_of_signature hs with ⟨-, hentry⟩ | ⟨-, hsome⟩
    · exact hentry
    · rw [hnone] at hsome
      cases hsome

/-- Lists that break off: behind a receiver and generics, behind a default value, and in an arrow whose
    last default value is closed. -/
theorem signature_of_unclosed_brokenOff :
    Language.go.signature "func (r *T) F[K any](a int, f func(x K) string".toList =
        .error .unterminatedParameters ∧
      Language.python.signature "async def f(a=(1, 2), b".toList = .error .unterminatedParameters ∧
      Language.typescript.signature "const f = (a, b = (1)".toList = .error .malformedArrow := by
  refine ⟨?_, ?_, ?_⟩
  · have hlist : Language.go.list? "func (r *T) F[K any](a int, f func(x K) string".toList =
        some "(a int, f func(x K) string".toList := by decide +kernel
    exact (signature_of_unclosed .go _).1 _ hlist (by decide +kernel) (.inl (by decide))
  · have hlist : Language.python.list? "async def f(a=(1, 2), b".toList =
        some "(a=(1, 2), b".toList := by decide +kernel
    exact (signature_of_unclosed .python _).1 _ hlist (by decide +kernel) (.inl (by decide))
  · have hlist : Language.typescript.list? "const f = (a, b = (1)".toList =
        some "(a, b = (1)".toList := by decide +kernel
    have harrow : Language.typescript.isArrow "const f = (a, b = (1)".toList = true := by decide +kernel
    have hreject := (signature_of_unclosed .typescript _).1 _ hlist (by decide +kernel) (.inr harrow)
    rwa [harrow] at hreject

/-- A header that breaks off behind an inner group, in every language. -/
def innerGroup : Language → Text
  | .typescript => "f((a)".toList
  | .go => "func f((a)".toList
  | .java => "int f((a)".toList
  | .python => "def f((a)".toList
  | .rust => "fn f((a)".toList
  | .php => "function f((a)".toList

/-- The close of the inner group is taken for that of the list. -/
theorem signature_of_innerGroup :
    Unclosed "((a)".toList ∧
      Language.all.map (fun l => l.list? (innerGroup l)) = List.replicate 6 (some "((a)".toList) ∧
      Language.all.map (fun l => (l.signature (innerGroup l)).toOption.map (·.name)) =
        List.replicate 6 (some "f".toList) := by
  decide +kernel

end Synopsis
