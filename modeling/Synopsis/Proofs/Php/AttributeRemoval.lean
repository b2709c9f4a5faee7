import Synopsis.Proofs.Nesting.Balanced
import Synopsis.Proofs.Php.Attribute

/-!
# Texts without attributes

Attributes are removed in rounds: the first one is cut out, and the text that is left is searched again
from its beginning, because the cut may have brought a hash sign in front of a bracket.

1. `exists_removal`: the rounds come to an end, and there are no more of them than hash signs.
2. `not_infix_stripAttributes`: no attribute is left.
3. `stripAttributes_text`: of a text that is written with attributes, everything else is left.
-/

namespace Synopsis.Php

open Text

/-! ## Rounds -/

/-- So many rounds lead from a text to one without attributes, and every round cuts the first attribute
    out. -/
inductive Removal : (rounds : Nat) → Text → Text → Prop
  | done {t : Text} : breakAttribute? t = none → Removal 0 t t
  | round {n : Nat} {t head rest r : Text} : breakAttribute? t = some (head, rest) →
      Removal n (head ++ rest) r → Removal (n + 1) t r

theorem breakAttribute?_eq_none_iff {t : Text} :
    breakAttribute? t = none ↔ ¬ attributeMark <:+: t := by
  rw [← cut?_eq_none_iff]
  exact Option.map_eq_none_iff

/-- With an attribute goes at least its hash sign. -/
theorem count_lt_of_breakAttribute? {t head rest : Text} (h : breakAttribute? t = some (head, rest)) :
    (head ++ rest).count '#' < t.count '#' := by
  obtain ⟨tail, hcut, rfl⟩ := breakAttribute?_eq_some.1 h
  have hrest := (suffix_balanced '[' ']' ('[' :: tail)).sublist.count_le '#'
  rw [List.count_cons_of_ne (by decide)] at hrest
  rw [eq_of_cut? hcut, List.count_append, List.count_append, List.count_append,
    show attributeMark.count '#' = 1 from rfl]
  omega

theorem exists_removal (t : Text) : ∃ n ≤ t.count '#', Removal n t (stripAttributes t) := by
  fun_induction stripAttributes t with
  | case1 t head rest h ih =>
    obtain ⟨n, hn, hremoval⟩ := ih
    exact ⟨n + 1, Nat.lt_of_le_of_lt hn (count_lt_of_breakAttribute? h), .round h hremoval⟩
  | case2 t h => exact ⟨0, Nat.zero_le _, .done h⟩

/-- The second attribute is there only once the first is gone. -/
example : Removal 2 "##[a][b]".toList [] := .round rfl (.round rfl (.done rfl))

theorem not_infix_of_removal {n : Nat} {t r : Text} (h : Removal n t r) : ¬ attributeMark <:+: r := by
  induction h with
  | done h => exact breakAttribute?_eq_none_iff.1 h
  | round _ _ ih => exact ih

theorem not_infix_stripAttributes (t : Text) : ¬ attributeMark <:+: stripAttributes t := by
  obtain ⟨n, -, h⟩ := exists_removal t
  exact not_infix_of_removal h

/-! ## Texts written with attributes -/

/-- A text written with attributes: what precedes the first of them, and for each what stands inside its
    brackets and what follows it. -/
structure Attributed where
  lead : Text
  parts : List (Text × Text)

namespace Attributed

/-- Attributes with what follows each of them. -/
def written (parts : List (Text × Text)) : Text :=
  parts.flatMap fun p => attributeMark ++ p.1 ++ ']' :: p.2

/-- The text with its attributes. -/
def text (w : Attributed) : Text := w.lead ++ written w.parts

/-- The text without its attributes. -/
def bare (w : Attributed) : Text := w.lead ++ w.parts.flatMap Prod.snd

/-- Around the attributes stand no hash signs and no opening brackets, and inside the attributes all square
    brackets are matched. -/
structure WellFormed (w : Attributed) : Prop where
  around : ∀ a ∈ w.lead :: w.parts.map Prod.snd, '#' ∉ a ∧ '[' ∉ a
  inside : ∀ b ∈ w.parts.map Prod.fst, WellMatched '[' ']' b

/-- What stands on both sides of the first attribute is one text around the others. -/
theorem WellFormed.merge {lead body tail : Text} {parts : List (Text × Text)}
    (h : WellFormed ⟨lead, (body, tail) :: parts⟩) : WellFormed ⟨lead ++ tail, parts⟩ where
  around a ha := by
    rcases List.mem_cons.1 ha with rfl | ha
    · have hlead := h.around lead (by simp)
      have htail := h.around tail (by simp)
      simp [hlead, htail]
    · exact h.around a (by simp [ha])
  inside b hb := h.inside b (List.mem_cons_of_mem body hb)

/-- The first attribute of a written text is the first that is found in it. -/
theorem WellFormed.cut?_text {lead body tail : Text} {parts : List (Text × Text)}
    (h : WellFormed ⟨lead, (body, tail) :: parts⟩) :
    cut? attributeMark (text ⟨lead, (body, tail) :: parts⟩) =
      some (lead, body ++ ']' :: (tail ++ written parts)) := by
  have htext : text ⟨lead, (body, tail) :: parts⟩ =
      lead ++ (attributeMark ++ (body ++ ']' :: (tail ++ written parts))) := by
    simp [text, written]
  have hfront : cut? attributeMark (attributeMark ++ (body ++ ']' :: (tail ++ written parts))) =
      some ([], body ++ ']' :: (tail ++ written parts)) := rfl
  rw [htext, cut?_append_left (c := '#') rfl (h.around lead List.mem_cons_self).1, hfront,
    Option.map_some, List.append_nil]

end Attributed

open Attributed in
theorem stripAttributes_text {w : Attributed} (hw : w.WellFormed) :
    stripAttributes w.text = w.bare := by
  obtain ⟨lead, parts⟩ := w
  -- Every round moves what follows the first attribute into the text in front of the others.
  induction parts generalizing lead with
  | nil =>
    have hnone : cut? attributeMark lead = none := cut?_eq_none_iff.2 fun hmark =>
      (hw.around lead List.mem_cons_self).1 (hmark.subset (by simp [attributeMark]))
    have htext : text ⟨lead, []⟩ = lead := List.append_nil lead
    rw [htext, stripAttributes_of_none hnone]
    exact htext.symm
  | cons part parts ih =>
    obtain ⟨body, tail⟩ := part
    have hbody := (wellMatched_iff (by decide)).1 (hw.inside body List.mem_cons_self)
    calc
      stripAttributes (text ⟨lead, (body, tail) :: parts⟩)
          = stripAttributes (lead ++ (tail ++ written parts)) := stripAttributes_of_ended hw.cut?_text hbody
      _ = stripAttributes (text ⟨lead ++ tail, parts⟩) := by rw [text, List.append_assoc]
      _ = bare ⟨lead ++ tail, parts⟩ := ih _ hw.merge
      _ = bare ⟨lead, (body, tail) :: parts⟩ := by simp [bare]

/-- What removing the attributes of a text comes to: an end, within as many rounds as there are hash signs;
    a part of the text in which no attribute is left; the text itself if there was none; and of a text
    written with attributes all that stands around them. -/
theorem stripAttributes_removes :
    (∀ t, (∃ n ≤ t.count '#', Removal n t (stripAttributes t)) ∧
      (stripAttributes t).Sublist t ∧
      ¬ attributeMark <:+: stripAttributes t ∧
      (¬ attributeMark <:+: t → stripAttributes t = t)) ∧
    ∀ w : Attributed, w.WellFormed → stripAttributes w.text = w.bare := by
  refine ⟨fun t => ⟨exists_removal t, sublist_stripAttributes t, not_infix_stripAttributes t, ?_⟩,
    fun w => stripAttributes_text⟩
  intro hnone
  exact stripAttributes_of_none (cut?_eq_none_iff.2 hnone)

/-- A parameter with two attributes, brackets and a hash sign inside them, and a stray bracket behind. -/
def routedParameter : Attributed :=
  ⟨"int ".toList, [("Route(['a', 'b'])".toList, " ".toList), ("A(#[B])".toList, " $x] = 1".toList)]⟩

theorem routedParameter_wellFormed : routedParameter.WellFormed where
  around := by decide
  inside b hb := by
    have hmatched : ∀ b ∈ routedParameter.parts.map Prod.fst, depthAfter '[' ']' 1 b = some 1 := by decide
    exact (wellMatched_iff (by decide)).2 (hmatched b hb)

theorem stripAttributes_removes_routedParameter :
    (¬ attributeMark <:+: "int $x".toList ∧ stripAttributes "int $x".toList = "int $x".toList) ∧
    routedParameter.WellFormed ∧ stripAttributes routedParameter.text = "int   $x] = 1".toList := by
  have hplain : ¬ attributeMark <:+: "int $x".toList := by decide
  exact ⟨⟨hplain, (stripAttributes_removes.1 "int $x".toList).2.2.2 hplain⟩, routedParameter_wellFormed,
    stripAttributes_removes.2 routedParameter routedParameter_wellFormed⟩

end Synopsis.Php
