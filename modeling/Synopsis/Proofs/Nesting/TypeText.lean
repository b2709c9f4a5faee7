import Synopsis.Proofs.Nesting.Piece

/-!
# Texts of types

`NestedType` is the grammar of texts whose round, square, curly and angle brackets are matched and do not
cross, where the second sign of a fat arrow is no bracket. A scan that knows no arrows closes a span once
too often for each of them (`NestedType.exists_lowers`), so it comes out of such a text where it went
in exactly when there is no arrow in it (`NestedType.depthAfter_iff`).
-/

namespace Synopsis

open Text Brackets

/-- The fat arrow. -/
def fatArrow : Text := "=>".toList

/-- Whether a character is a bracket of any of the four kinds. -/
def isTypeBracket (c : Char) : Bool := all.opens c || all.closes c

theorem not_bracket_of_usual {b : Brackets} (hb : b.Usual) {c : Char} (h : isTypeBracket c = false) :
    b.opens c = false ∧ b.closes c = false := by
  obtain ⟨ho, hc⟩ := Bool.or_eq_false_iff.1 h
  exact ⟨opens_of_all hb ho, closes_of_all hb hc⟩

theorem all_of_chars {b : Brackets} (hb : b.Usual) {s : Text} {x : Char}
    (h : ∀ c ∈ s, isTypeBracket c = false ∧ c ≠ x) :
    s.all (fun c => c != x && !b.opens c && !b.closes c) = true := by
  refine List.all_eq_true.2 fun c hc => ?_
  obtain ⟨ho, hcl⟩ := not_bracket_of_usual hb (h c hc).1
  simp [(h c hc).2, ho, hcl]

/-- A text with matched brackets that do not cross, arrows apart. A closing angle bracket does not follow
    an equals sign, since it would be the second sign of an arrow. -/
inductive NestedType : Text → Prop
  | nil : NestedType []
  | plain {c : Char} {t : Text} : isTypeBracket c = false → NestedType t → NestedType (c :: t)
  | arrow {t : Text} : NestedType t → NestedType ('=' :: '>' :: t)
  | group {o c : Char} {s t : Text} : (o, c) ∈ all.pairs → (c = '>' → s.getLast? ≠ some '=') →
      NestedType s → NestedType t → NestedType (o :: s ++ c :: t)

/-- Two characters in a row stand in one of two parts or on both sides of the cut. -/
theorem pair_infix_append_iff {x y : Char} {s t : Text} : [x, y] <:+: s ++ t ↔
    [x, y] <:+: s ∨ [x, y] <:+: t ∨ (s.getLast? = some x ∧ t.head? = some y) := by
  induction s with
  | nil => simp
  | cons c s ih =>
    cases s with
    | nil =>
      have hcut : [x, y] <+: c :: t ↔ x = c ∧ t.head? = some y := by
        rw [List.cons_prefix_cons, List.head?_eq_some_iff]
        exact and_congr_right fun _ => ⟨fun ⟨u, hu⟩ => ⟨u, hu.symm⟩, fun ⟨u, hu⟩ => ⟨u, hu.symm⟩⟩
      have hone : ¬ [x, y] <:+: [c] := fun h => absurd h.length_le (by simp)
      rw [List.singleton_append, List.infix_cons_iff, hcut]
      simp only [hone, List.getLast?_singleton, Option.some.injEq, false_or, eq_comm (a := c)]
      exact or_comm
    | cons d s =>
      have hcut : [x, y] <+: c :: (d :: s ++ t) ↔ [x, y] <+: c :: d :: s := by
        simp [List.cons_prefix_cons]
      rw [List.cons_append, List.infix_cons_iff, ih, hcut, List.infix_cons_iff (a := c),
        List.getLast?_cons_cons, or_assoc]

namespace NestedType

variable {s t : Text}

theorem append (hs : NestedType s) (ht : NestedType t) : NestedType (s ++ t) := by
  induction hs with
  | nil => exact ht
  | plain hc _ ih => exact .plain hc ih
  | arrow _ ih => exact .arrow ih
  | group hpair hlast hinner _ _ ih =>
    rw [List.append_assoc, List.cons_append]
    exact .group hpair hlast hinner ih

theorem of_all (h : s.all (fun c => !isTypeBracket c) = true) : NestedType s := by
  induction s with
  | nil => exact .nil
  | cons c s ih =>
    obtain ⟨hc, hs⟩ := Bool.and_eq_true_iff.1 h
    exact .plain (by simpa using hc) (ih hs)

theorem isTypeBracket_of_blank {c : Char} (h : isBlank c = true) : isTypeBracket c = false := by
  rw [isTypeBracket, opens_of_blank usual_all h, closes_of_blank usual_all h]
  rfl

theorem of_blank (h : blank s = true) : NestedType s := by
  refine of_all (List.all_eq_true.2 fun c hc => ?_)
  rw [isTypeBracket_of_blank (List.all_eq_true.1 h c hc)]
  rfl

theorem of_trim (h : NestedType (trim s)) : NestedType s := by
  obtain ⟨g, g', hg, hg', hs⟩ := exists_trim s
  rw [hs]
  exact ((of_blank hg).append h).append (of_blank hg')

/-! ## Angle brackets without arrows -/

theorem ne_of_isTypeBracket {c x : Char} (h : isTypeBracket c = false) (hx : isTypeBracket x = true) :
    c ≠ x := by
  rintro rfl
  rw [h] at hx
  cases hx

/-- Nothing that a text of a type begins with makes an arrow of an equals sign before it. -/
theorem head?_ne (h : NestedType s) : s.head? ≠ some '>' := by
  cases h with
  | nil => simp
  | plain hc _ => simpa using ne_of_isTypeBracket hc (by decide)
  | arrow _ => simp
  | group hpair _ _ _ =>
    revert hpair
    simp only [all, List.mem_cons, List.not_mem_nil, or_false, Prod.mk.injEq]
    rintro (⟨rfl, rfl⟩ | ⟨rfl, rfl⟩ | ⟨rfl, rfl⟩ | ⟨rfl, rfl⟩) <;> simp

theorem arrow_infix_plain {c : Char} (h : NestedType t) :
    fatArrow <:+: c :: t ↔ fatArrow <:+: t := by
  have hone : ¬ ['=', '>'] <:+: [c] := fun h => absurd h.length_le (by simp)
  show ['=', '>'] <:+: [c] ++ t ↔ _
  rw [pair_infix_append_iff]
  simp only [hone, h.head?_ne, and_false, or_false, false_or]
  rfl

theorem arrow_infix_group {o c : Char} (hpair : (o, c) ∈ all.pairs)
    (hlast : c = '>' → s.getLast? ≠ some '=') (ht : NestedType t) :
    fatArrow <:+: o :: s ++ c :: t ↔ fatArrow <:+: s ∨ fatArrow <:+: t := by
  have ho : o ≠ '=' ∧ c ≠ '=' := by
    revert hpair
    simp only [all, List.mem_cons, List.not_mem_nil, or_false, Prod.mk.injEq]
    rintro (⟨rfl, rfl⟩ | ⟨rfl, rfl⟩ | ⟨rfl, rfl⟩ | ⟨rfl, rfl⟩) <;> decide
  have hone : ¬ ['=', '>'] <:+: [o] := fun h => absurd h.length_le (by simp)
  have hseam : ¬ ((o :: s).getLast? = some '=' ∧ c = '>') := by
    rintro ⟨hl, hc⟩
    rw [List.getLast?_cons] at hl
    have hne := hlast hc
    cases hs : s.getLast? with
    | none =>
      rw [hs] at hl
      exact ho.1 (Option.some.inj hl)
    | some x =>
      rw [hs] at hl hne
      exact hne hl
  have hopen : ['=', '>'] <:+: o :: s ↔ ['=', '>'] <:+: s := by
    show ['=', '>'] <:+: [o] ++ s ↔ _
    rw [pair_infix_append_iff]
    simp [hone, ho.1]
  show ['=', '>'] <:+: (o :: s) ++ (c :: t) ↔ _
  rw [pair_infix_append_iff, hopen, List.head?_cons, Option.some.injEq]
  simp only [hseam, or_false]
  exact or_congr_right (arrow_infix_plain ht)

/-! ### A scan that knows no arrows -/

/-- A text that takes a number of levels of angle brackets away, or ends the scan where there are no more. -/
def Lowers (k : Nat) (s : Text) : Prop :=
  ∀ d, 1 ≤ d → depthAfter '<' '>' d s = if k < d then some (d - k) else none

theorem lowers_nil : Lowers 0 [] := by
  intro d hd
  rw [depthAfter, if_pos (Nat.zero_lt_of_lt hd), Nat.sub_zero]

theorem Lowers.plain {k : Nat} {c : Char} (h : Lowers k t) (hc : isTypeBracket c = false) :
    Lowers k (c :: t) := by
  intro d hd
  rw [depthAfter, if_neg (ne_of_isTypeBracket hc (by decide)),
    if_neg (ne_of_isTypeBracket hc (by decide)), h d hd]

theorem Lowers.arrow {k : Nat} (h : Lowers k t) : Lowers (k + 1) ('=' :: '>' :: t) := by
  intro d hd
  rw [depthAfter, if_neg (by decide), if_neg (by decide), depthAfter, if_neg (by decide), if_pos rfl]
  split
  · next hone => rw [if_neg (by omega)]
  · next hone =>
    rw [h (d - 1) (by omega)]
    grind

/-- Angle brackets are one level deeper inside, other brackets are not counted. -/
theorem Lowers.group {k l : Nat} {o c : Char} (hpair : (o, c) ∈ all.pairs) (hs : Lowers k s)
    (ht : Lowers l t) : Lowers (k + l) (o :: s ++ c :: t) := by
  intro d hd
  have hkind : (o = '<' ∧ c = '>') ∨ (o ≠ '<' ∧ o ≠ '>' ∧ c ≠ '<' ∧ c ≠ '>') := by
    revert hpair
    simp only [all, List.mem_cons, List.not_mem_nil, or_false, Prod.mk.injEq]
    rintro (⟨rfl, rfl⟩ | ⟨rfl, rfl⟩ | ⟨rfl, rfl⟩ | ⟨rfl, rfl⟩) <;> decide
  rw [depthAfter_append, depthAfter]
  rcases hkind with ⟨rfl, rfl⟩ | ⟨ho, ho', hc, hc'⟩
  · rw [if_pos rfl, hs (d + 1) (by omega)]
    split
    · rw [Option.bind_some, depthAfter, if_neg (by decide), if_pos rfl]
      split
      · rw [if_neg (by omega)]
      · rw [ht _ (by omega)]
        grind
    · rw [if_neg (by omega)]
      rfl
  · rw [if_neg ho, if_neg ho', hs d hd]
    split
    · rw [Option.bind_some, depthAfter, if_neg hc, if_neg hc', ht _ (by omega)]
      grind
    · rw [if_neg (by omega)]
      rfl

/-- Every arrow takes one level of angle brackets away, until none is left. -/
theorem exists_lowers (h : NestedType s) : ∃ k, (k = 0 ↔ ¬ fatArrow <:+: s) ∧ Lowers k s := by
  induction h with
  | nil => exact ⟨0, by simp [fatArrow], lowers_nil⟩
  | @plain c t hc ht ih =>
    obtain ⟨k, hk, hlowers⟩ := ih
    exact ⟨k, by rw [hk, arrow_infix_plain ht], hlowers.plain hc⟩
  | @arrow t ht ih =>
    obtain ⟨k, -, hlowers⟩ := ih
    have hmem : fatArrow <:+: '=' :: '>' :: t := (List.prefix_append fatArrow t).isInfix
    exact ⟨k + 1, by simp [hmem], hlowers.arrow⟩
  | @group o c s t hpair hlast hs ht ihs iht =>
    obtain ⟨k, hk, hinner⟩ := ihs
    obtain ⟨l, hl, hrest⟩ := iht
    refine ⟨k + l, ?_, hinner.group hpair hrest⟩
    rw [arrow_infix_group hpair hlast ht, not_or, ← hk, ← hl, Nat.add_eq_zero_iff]

/-- A scan that counts every closing angle bracket comes out of a text of a type where it went in exactly
    when no arrow is in the text. -/
theorem depthAfter_iff (h : NestedType s) :
    depthAfter '<' '>' 1 s = some 1 ↔ ¬ fatArrow <:+: s := by
  obtain ⟨k, hk, hlowers⟩ := h.exists_lowers
  rw [← hk, hlowers 1 (Nat.le_refl 1)]
  grind

end NestedType

end Synopsis
