import Mathlib.Order.Bounds.Defs
import Synopsis.Proofs.Nesting.Span

/-!
# Balanced spans by counting

A span is read by its depth. This module describes it without one: a span ends at the first offset up to
which both delimiters occur equally often, and takes the rest of the text where there is no such offset
(`balancedAt_counts`). What carries it from the depth to the counts is that inside a span more has been
opened than closed, however early one stops to read (`count_lt_of_depthAfter`). A closed span depends on
nothing around it, so it is read in the same way wherever it stands (`balancedAt_insert`). What may stand
inside a closed span is a well-matched text (`wellMatched_iff`).
-/

namespace Synopsis

open Text

/-- Between two offsets of a text both delimiters occur equally often. -/
def EvenBetween (opener closer : Char) (t : Text) (start stop : Nat) : Prop :=
  start < stop ∧ (slice t start stop).count opener = (slice t start stop).count closer

instance (opener closer : Char) (t : Text) (start stop : Nat) :
    Decidable (EvenBetween opener closer t start stop) :=
  inferInstanceAs (Decidable (_ ∧ _))

section Counts

variable {opener closer : Char}

/-- However early one stops to read inside a span, more has been opened than closed. -/
theorem count_lt_of_depthAfter (hne : opener ≠ closer) {e : Nat} {p s : Text}
    (h : depthAfter opener closer 1 s = some e) (hp : p <+: s) :
    (opener :: p).count closer < (opener :: p).count opener := by
  obtain ⟨r, rfl⟩ := hp
  rw [depthAfter_append] at h
  obtain ⟨f, hf, -⟩ := Option.bind_eq_some_iff.1 h
  have hopen : 1 ≤ f := depthAfter_pos hf (Nat.le_refl 1)
  have hcount : 1 + p.count opener = f + p.count closer := count_of_depthAfter hne hf (Nat.le_refl 1)
  rw [List.count_cons_of_ne hne, List.count_cons_self]
  omega

/-! ## Well-matched texts -/

/-- A text whose delimiters are well matched: no beginning of it closes more than it opens, and the whole
    closes all that it opens. -/
structure WellMatched (opener closer : Char) (s : Text) : Prop where
  closed_le : ∀ p, p <+: s → p.count closer ≤ p.count opener
  all_closed : s.count closer = s.count opener

theorem wellMatched_iff (hne : opener ≠ closer) {s : Text} :
    WellMatched opener closer s ↔ depthAfter opener closer 1 s = some 1 := by
  constructor
  · intro h
    cases hs : depthAfter opener closer 1 s with
    | none =>
      -- The close that is too many ends a beginning which closes more than it opens.
      obtain ⟨a, r, rfl, ha⟩ := exists_close hs
      have heven : 1 + a.count opener = 1 + a.count closer := count_of_depthAfter hne ha (Nat.le_refl 1)
      have hle := h.closed_le (a ++ [closer]) ⟨r, by rw [List.append_assoc, List.singleton_append]⟩
      rw [List.count_append, List.count_append, List.count_singleton_self,
        List.count_cons_of_ne (Ne.symm hne), List.count_nil] at hle
      omega
    | some e =>
      have hcount : 1 + s.count opener = e + s.count closer := count_of_depthAfter hne hs (Nat.le_refl 1)
      have heven := h.all_closed
      rw [show e = 1 by omega]
  · intro h
    have hcount : 1 + s.count opener = 1 + s.count closer := count_of_depthAfter hne h (Nat.le_refl 1)
    refine ⟨fun p hp => ?_, by omega⟩
    have hlt := count_lt_of_depthAfter hne h hp
    rw [List.count_cons_of_ne hne, List.count_cons_self] at hlt
    omega

/-! ## Slices -/

theorem slice_eq_take_drop (t : Text) (start stop : Nat) :
    slice t start stop = (t.drop start).take (stop - start) := List.drop_take

/-- A slice that is not empty starts with the character at its offset. -/
theorem slice_cons {t z : Text} {start stop : Nat} (h : t.drop start = opener :: z) (hlt : start < stop) :
    slice t start stop = opener :: z.take (stop - start - 1) := by
  obtain ⟨k, hk⟩ : ∃ k, stop - start = k + 1 := ⟨stop - start - 1, by omega⟩
  rw [slice_eq_take_drop, h, hk, List.take_succ_cons, Nat.add_sub_cancel]

/-- A slice that goes no further than the inside of a span is not even. -/
theorem not_evenBetween_of_depthAfter (hne : opener ≠ closer) {t s r : Text} {start stop e : Nat}
    (h : t.drop start = opener :: (s ++ r)) (hs : depthAfter opener closer 1 s = some e)
    (hstop : stop ≤ start + s.length + 1 ∨ r = []) : ¬ EvenBetween opener closer t start stop := by
  rintro ⟨hlt, hcount⟩
  have hprefix : (s ++ r).take (stop - start - 1) <+: s := by
    rcases hstop with hstop | rfl
    · rw [List.take_append_of_le_length (by omega)]
      exact List.take_prefix _ s
    · rw [List.append_nil]
      exact List.take_prefix _ s
  have hmore := count_lt_of_depthAfter hne hs hprefix
  rw [← slice_cons h hlt, hcount] at hmore
  exact Nat.lt_irrefl _ hmore

/-! ## Spans by offset -/

/-- At an offset that does not count from the end, the span is the one at the front of what is left. -/
theorem balancedAt_of_balanced {t span rest : Text} {start : Nat}
    (h : balanced opener closer (t.drop start) = (span, rest)) :
    balancedAt [opener] [closer] t start = .ok (span, start + span.length) := by
  have hcut : t.drop start = span ++ rest := by
    rw [← balanced_append opener closer (t.drop start), h]
  have hlength : spanLength [opener] [closer] (t.drop start) = span.length := by
    rw [spanLength, h]
  have htake : (t.drop start).take span.length = span := by rw [hcut, List.take_left]
  rw [balancedAt, if_pos (Int.natCast_nonneg start), Int.toNat_natCast]
  simp only [hlength, htake]

/-- A closed span is read wherever it stands. -/
theorem balancedAt_insert (hne : opener ≠ closer) {s : Text}
    (h : depthAfter opener closer 1 s = some 1) (before after : Text) :
    balancedAt [opener] [closer] (before ++ (opener :: s ++ [closer]) ++ after) before.length =
      .ok (opener :: s ++ [closer], before.length + (opener :: s ++ [closer]).length) := by
  have hdrop : (before ++ (opener :: s ++ [closer]) ++ after).drop before.length =
      opener :: s ++ closer :: after := by
    rw [List.append_assoc, List.drop_left, List.append_assoc]
    rfl
  exact balancedAt_of_balanced (by rw [hdrop, balanced_of_depthAfter h hne])

theorem exists_drop_of_getElem? {t : Text} {start : Nat} (h : t[start]? = some opener) :
    ∃ z, t.drop start = opener :: z :=
  ⟨t.drop (start + 1), by
    obtain ⟨hlt, rfl⟩ := List.getElem?_eq_some_iff.1 h
    exact List.drop_eq_getElem_cons hlt⟩

/-- Without an opener at the offset there is no span. -/
theorem balancedAt_of_ne {t : Text} {start : Nat} (h : t[start]? ≠ some opener) :
    balancedAt [opener] [closer] t start = .ok ([], start) := by
  have hhead : (t.drop start).head? ≠ some opener := by rwa [List.head?_drop]
  exact balancedAt_of_balanced (if_neg hhead)

theorem slice_span {t s r : Text} {start : Nat} (h : t.drop start = opener :: (s ++ closer :: r)) :
    slice t start (start + s.length + 2) = opener :: s ++ [closer] := by
  have hlength : start + s.length + 2 - start - 1 = s.length + 1 := by omega
  rw [slice_cons h (by omega), hlength, List.take_length_add_append]
  rfl

/-- A closed span ends at the first offset up to which both delimiters occur equally often. -/
theorem isLeast_evenBetween (hne : opener ≠ closer) {t s r : Text} {start : Nat}
    (h : t.drop start = opener :: (s ++ closer :: r)) (hs : depthAfter opener closer 1 s = some 1) :
    IsLeast {stop | EvenBetween opener closer t start stop} (start + s.length + 2) := by
  have hcount : 1 + s.count opener = 1 + s.count closer := count_of_depthAfter hne hs (Nat.le_refl 1)
  refine ⟨⟨by omega, ?_⟩, fun stop hstop => ?_⟩
  · rw [slice_span h, List.cons_append, List.count_cons_self, List.count_cons_of_ne hne, List.count_append,
      List.count_append, List.count_singleton_self, List.count_cons_of_ne (Ne.symm hne), List.count_nil]
    omega
  · refine Nat.le_of_not_lt fun hlt => ?_
    exact not_evenBetween_of_depthAfter hne h hs (.inl (by omega)) hstop

/-- There is an offset up to which both delimiters occur equally often exactly when the span is closed. -/
theorem exists_evenBetween_iff (hne : opener ≠ closer) {t z : Text} {start : Nat}
    (h : t.drop start = opener :: z) :
    (∃ stop, EvenBetween opener closer t start stop) ↔ depthAfter opener closer 1 z = none := by
  constructor
  · rintro ⟨stop, hstop⟩
    rw [Option.eq_none_iff_forall_ne_some]
    intro e he
    exact not_evenBetween_of_depthAfter hne (by rwa [List.append_nil]) he (.inr rfl) hstop
  · intro hclosed
    obtain ⟨s, r, rfl, hs⟩ := exists_close hclosed
    exact ⟨_, (isLeast_evenBetween hne h hs).1⟩

end Counts

/-- What a span is, by the counts of its delimiters: nothing without the opener at its offset; else up to
    the first offset at which as many closers as openers have been met, and then the same wherever the
    span stands; else the rest of the text. -/
theorem balancedAt_counts {opener closer : Char} (hne : opener ≠ closer) (t : Text) (start : Nat) :
    (t[start]? ≠ some opener → balancedAt [opener] [closer] t start = .ok ([], start)) ∧
    (t[start]? = some opener → (∃ stop, EvenBetween opener closer t start stop) →
      ∃ stop, IsLeast {stop | EvenBetween opener closer t start stop} stop ∧
        balancedAt [opener] [closer] t start = .ok (slice t start stop, stop) ∧
        ∀ before after,
          balancedAt [opener] [closer] (before ++ slice t start stop ++ after) before.length =
            .ok (slice t start stop, before.length + (slice t start stop).length)) ∧
    (t[start]? = some opener → (¬ ∃ stop, EvenBetween opener closer t start stop) →
      balancedAt [opener] [closer] t start = .ok (t.drop start, t.length)) := by
  refine ⟨balancedAt_of_ne, fun h heven => ?_, fun h heven => ?_⟩
  · obtain ⟨z, hz⟩ := exists_drop_of_getElem? h
    obtain ⟨s, r, rfl, hs⟩ := exists_close ((exists_evenBetween_iff hne hz).1 heven)
    have hspan : balanced opener closer (t.drop start) = (opener :: s ++ [closer], r) := by
      rw [hz, ← balanced_of_depthAfter hs hne r]
      rfl
    have hlength : start + (opener :: s ++ [closer]).length = start + s.length + 2 := by
      rw [List.length_append, List.length_cons]
      rfl
    refine ⟨_, isLeast_evenBetween hne hz hs, ?_, ?_⟩
    · rw [balancedAt_of_balanced hspan, slice_span hz, ← Int.natCast_add, hlength]
    · rw [slice_span hz]
      exact balancedAt_insert hne hs
  · obtain ⟨z, hz⟩ := exists_drop_of_getElem? h
    obtain ⟨e, he⟩ := Option.ne_none_iff_exists'.1 (mt (exists_evenBetween_iff hne hz).2 heven)
    have hspan : balanced opener closer (t.drop start) = (t.drop start, []) := by
      rw [hz, balanced_of_open he]
    have hlength : start + (t.drop start).length = t.length := by
      obtain ⟨hlt, -⟩ := List.getElem?_eq_some_iff.1 h
      rw [List.length_drop]
      omega
    rw [balancedAt_of_balanced hspan, ← Int.natCast_add, hlength]

/-- A call with a group inside its list. -/
def nestedCall : Text := "f(a, (b)) -> c".toList

/-- The call is read in front of its list, at its list, and broken off inside its list. -/
theorem balancedAt_counts_nestedCall :
    balancedAt ['('] [')'] nestedCall 0 = .ok ([], 0) ∧
    (∃ stop, IsLeast {stop | EvenBetween '(' ')' nestedCall 1 stop} stop ∧
      balancedAt ['('] [')'] nestedCall 1 = .ok (slice nestedCall 1 stop, stop) ∧
      ∀ before after,
        balancedAt ['('] [')'] (before ++ slice nestedCall 1 stop ++ after) before.length =
          .ok (slice nestedCall 1 stop, before.length + (slice nestedCall 1 stop).length)) ∧
    balancedAt ['('] [')'] (nestedCall.take 8) 1 = .ok ("(a, (b)".toList, 8) := by
  have hopen : ¬ ∃ stop, EvenBetween '(' ')' (nestedCall.take 8) 1 stop := by
    rw [exists_evenBetween_iff (z := "a, (b)".toList) (by decide) rfl]
    decide
  exact ⟨(balancedAt_counts (by decide) nestedCall 0).1 (by decide),
    (balancedAt_counts (by decide) nestedCall 1).2.1 rfl ⟨9, by decide⟩,
    (balancedAt_counts (by decide) (nestedCall.take 8) 1).2.2 rfl hopen⟩

end Synopsis
