import Synopsis.Language.PhpSignature
import Synopsis.Proofs.Nesting.Span
import Synopsis.Proofs.Nesting.TypeText
import Synopsis.Proofs.Text.Reader

/-!
# Texts between attributes

An attribute is removed from its hash sign to the end of its brackets, or to the end of the text when they
do not end. So the part of a text in which all attributes end (`AttributesEnd`) can be cleaned on its own
(`stripAttributes_around`); of a text that has an attribute without an end, nothing behind that is left
(`count_stripAttributes_le`).
-/

namespace Synopsis.Php

open Text

/-- The sign that opens an attribute. -/
def attributeMark : Text := "#[".toList

/-- A text in which the brackets of every attribute end, also of one that a removal brings together. -/
inductive AttributesEnd : Text → Prop
  | clean {w : Text} : cut? attributeMark w = none → AttributesEnd w
  | removed {w head s r : Text} : cut? attributeMark w = some (head, s ++ ']' :: r) →
      depthAfter '[' ']' 1 s = some 1 → AttributesEnd (head ++ r) → AttributesEnd w

section Strip

variable {t head rest : Text}

theorem breakAttribute?_eq_some : breakAttribute? t = some (head, rest) ↔
    ∃ tail, cut? attributeMark t = some (head, tail) ∧ rest = (balanced '[' ']' ('[' :: tail)).2 := by
  have hdrop {head tail : Text} (h : cut? attributeMark t = some (head, tail)) :
      t.drop (head.length + 1) = '[' :: tail := by
    rw [eq_of_cut? h, List.append_assoc, List.drop_append]
    simp [attributeMark]
  constructor
  · intro h
    obtain ⟨⟨head', tail⟩, hcut, he⟩ := Option.map_eq_some_iff.1 h
    obtain ⟨rfl, rfl⟩ := Prod.mk.inj he
    exact ⟨tail, hcut, by rw [hdrop hcut]⟩
  · rintro ⟨tail, hcut, rfl⟩
    exact Option.map_eq_some_iff.2 ⟨(head, tail), hcut, by simp only [hdrop hcut]⟩

theorem stripAttributes_of_none (h : cut? attributeMark t = none) : stripAttributes t = t := by
  have hbreak : breakAttribute? t = none := Option.map_eq_none_iff.2 h
  rw [stripAttributes]
  split
  · next hsome => rw [hbreak] at hsome; cases hsome
  · rfl

theorem stripAttributes_of_some (h : cut? attributeMark t = some (head, rest)) :
    stripAttributes t = stripAttributes (head ++ (balanced '[' ']' ('[' :: rest)).2) := by
  have hbreak := breakAttribute?_eq_some.2 ⟨rest, h, rfl⟩
  rw [stripAttributes]
  split
  · next hsome =>
    obtain ⟨rfl, rfl⟩ := Prod.mk.inj (Option.some.inj (hbreak.symm.trans hsome))
    rfl
  · next hnone => rw [hbreak] at hnone; cases hnone

/-- An attribute whose brackets end is cut out of the text. -/
theorem stripAttributes_of_ended {s r : Text} (h : cut? attributeMark t = some (head, s ++ ']' :: r))
    (hs : depthAfter '[' ']' 1 s = some 1) : stripAttributes t = stripAttributes (head ++ r) := by
  rw [stripAttributes_of_some h, ← List.cons_append, balanced_of_depthAfter hs (by decide)]

/-- An attribute whose brackets do not end takes all that is left. -/
theorem stripAttributes_of_open {e : Nat} (h : cut? attributeMark t = some (head, rest))
    (hrest : depthAfter '[' ']' 1 rest = some e) : stripAttributes t = stripAttributes head := by
  rw [stripAttributes_of_some h, balanced_of_open hrest, List.append_nil]

theorem sublist_stripAttributes (t : Text) : (stripAttributes t).Sublist t := by
  fun_induction stripAttributes t with
  | case1 t head rest h ih =>
    obtain ⟨tail, hcut, rfl⟩ := breakAttribute?_eq_some.1 h
    have htail : ((balanced '[' ']' ('[' :: tail)).2).Sublist (attributeMark ++ tail) :=
      (suffix_balanced '[' ']' ('[' :: tail)).sublist.trans (List.sublist_cons_self '#' ('[' :: tail))
    rw [eq_of_cut? hcut, List.append_assoc]
    exact ih.trans (htail.append_left head)
  | case2 t h => exact List.Sublist.refl t

end Strip

section Around

variable {a b w : Text} (ha : '#' ∉ a) (hb : ∀ c ∈ b, c ≠ '#' ∧ c ≠ '[' ∧ c ≠ ']')

include ha in
theorem cut?_around {head rest : Text} (h : cut? attributeMark w = some (head, rest)) (b : Text) :
    cut? attributeMark (a ++ (w ++ b)) = some (a ++ head, rest ++ b) := by
  rw [cut?_append_left (c := '#') rfl ha, cut?_append h]
  rfl

include ha hb

theorem cut?_around_eq_none (h : cut? attributeMark w = none) :
    cut? attributeMark (a ++ (w ++ b)) = none := by
  have hw : ¬ ['#', '['] <:+: w := cut?_eq_none_iff.1 h
  have hmem : ¬ ['#', '['] <:+: b := fun hpair => (hb '#' (hpair.subset (by simp))).1 rfl
  have hhead : b.head? ≠ some '[' := fun hhead => (hb '[' (List.mem_of_mem_head? hhead)).2.1 rfl
  have hnone : cut? attributeMark (w ++ b) = none := by
    refine cut?_eq_none_iff.2 fun hpair => ?_
    rcases pair_infix_append_iff.1 hpair with hpair | hpair | ⟨-, hfirst⟩
    · exact hw hpair
    · exact hmem hpair
    · exact hhead hfirst
  rw [cut?_append_left (c := '#') rfl ha, hnone]
  rfl

/-- Where all attributes end, what stands around a text does not change what is removed from it. -/
theorem stripAttributes_around (h : AttributesEnd w) :
    stripAttributes (a ++ (w ++ b)) = a ++ (stripAttributes w ++ b) := by
  induction h with
  | clean hnone =>
    rw [stripAttributes_of_none hnone, stripAttributes_of_none (cut?_around_eq_none ha hb hnone)]
  | @removed w head s r hcut hs _ ih =>
    have haround := cut?_around ha hcut b
    rw [List.append_assoc, List.cons_append] at haround
    rw [stripAttributes_of_ended hcut hs, stripAttributes_of_ended haround hs, ← ih, List.append_assoc,
      List.append_assoc]

/-- An attribute without an end takes everything behind it. -/
theorem count_stripAttributes_le {q : Char} (hq : q ∉ w) (h : ¬ AttributesEnd w) :
    (stripAttributes (a ++ (w ++ b))).count q ≤ a.count q := by
  -- Attributes that end may come before the one that does not, so the induction is on what they leave.
  induction hn : w.length using Nat.strongRecOn generalizing w with
  | ind n ih =>
    cases hcut : cut? attributeMark w with
    | none => exact absurd (.clean hcut) h
    | some cut =>
      obtain ⟨head, rest⟩ := cut
      have hw : w = head ++ attributeMark ++ rest := eq_of_cut? hcut
      have haround := cut?_around ha hcut b
      cases hrest : depthAfter '[' ']' 1 rest with
      | none =>
        obtain ⟨s, r, rfl, hs⟩ := exists_close hrest
        have hmem : q ∉ head ++ r := fun hmem => hq (by
          rw [hw]
          rcases List.mem_append.1 hmem with hmem | hmem <;> simp [hmem])
        have hlength : (head ++ r).length < n := by
          rw [← hn, hw]
          simp only [List.length_append, List.length_cons, attributeMark]
          omega
        rw [List.append_assoc, List.cons_append] at haround
        rw [stripAttributes_of_ended haround hs, List.append_assoc, ← List.append_assoc head]
        exact ih _ hlength hmem (fun hend => h (.removed hcut hs hend)) rfl
      | some e =>
        have hopen : depthAfter '[' ']' 1 (rest ++ b) = some e := by
          rw [depthAfter_append, hrest, Option.bind_some,
            depthAfter_of_not_mem (fun hmem => (hb _ hmem).2.1 rfl) (fun hmem => (hb _ hmem).2.2 rfl)]
        have hhead : head.count q = 0 := List.count_eq_zero.2 fun hmem => hq (by rw [hw]; simp [hmem])
        rw [stripAttributes_of_open haround hopen]
        refine Nat.le_trans ((sublist_stripAttributes (a ++ head)).count_le q) (Nat.le_of_eq ?_)
        rw [List.count_append, hhead, Nat.add_zero]

end Around

end Synopsis.Php
