import Mathlib.Data.List.Induction
import Synopsis.Proofs.Nesting.Piece

/-!
# Open brackets by counting

The splitter keeps a list of open brackets, from which a closer takes its own kind if there is one. This
module says without that list what it tells. Nothing is open after a text exactly when every ending of the
text closes each kind at least as often as it opens it (`allClosed_iff`): an ending, because a closer with
nothing to close is not held against the openers behind it. Where no closer is a stray one, the list holds
of each kind what has been opened less what has been closed (`count_openAfter_of_strayFree`), and then every
closer does find its opener (`StrayFree.exists_opener`). All of it follows from what one character does to
the number of open brackets of one kind (`count_step`).
-/

namespace Synopsis.Brackets

open Text

/-- How often a closer stands in a text that follows `prev`, the heads of arrows apart. -/
def closings (closer : Char) : (prev : Option Char) → Text → Nat
  | _, [] => 0
  | prev, c :: cs =>
    (if c = closer ∧ isArrowHead prev c = false then 1 else 0) + closings closer (some c) cs

/-- However late one starts to read, each kind of bracket is closed at least as often as it is opened. -/
def AllClosed (b : Brackets) (t : Text) : Prop :=
  ∀ p ∈ b.pairs, ∀ s u, t = s ++ u → u.count p.1 ≤ closings p.2 s.getLast? u

/-- Where a closer stands, brackets of its kind have been opened more often than closed. -/
def StrayFree (b : Brackets) (t : Text) : Prop :=
  ∀ p ∈ b.pairs, ∀ s u, t = s ++ p.2 :: u → isArrowHead s.getLast? p.2 = false →
    closings p.2 none s < s.count p.1

/-- Whether all is closed can be told by looking at every place where one can start to read. -/
theorem allClosed_iff_range {b : Brackets} {t : Text} : b.AllClosed t ↔
    ∀ p ∈ b.pairs, ∀ k ∈ List.range (t.length + 1),
      (t.drop k).count p.1 ≤ closings p.2 (t.take k).getLast? (t.drop k) := by
  constructor
  · intro h p hp k _
    exact h p hp (t.take k) (t.drop k) (List.take_append_drop k t).symm
  · intro h p hp s u hcut
    exact forall_cut_of_range (p := fun s u => u.count p.1 ≤ closings p.2 s.getLast? u) (h p hp) hcut

instance (b : Brackets) (t : Text) : Decidable (b.AllClosed t) := decidable_of_iff _ allClosed_iff_range.symm

/-- Stray closers can be found by looking at every place where a closer stands. -/
theorem strayFree_iff_range {b : Brackets} {t : Text} : b.StrayFree t ↔
    ∀ p ∈ b.pairs, ∀ k ∈ List.range (t.length + 1), (t.drop k).head? = some p.2 →
      isArrowHead (t.take k).getLast? p.2 = false → closings p.2 none (t.take k) < (t.take k).count p.1 := by
  constructor
  · intro h p hp k _ hhead
    obtain ⟨u, hu⟩ := List.head?_eq_some_iff.1 hhead
    exact h p hp (t.take k) u (by rw [← hu, List.take_append_drop])
  · intro h p hp s u hcut
    exact forall_cut_of_range (p := fun s r => r.head? = some p.2 → isArrowHead s.getLast? p.2 = false →
      closings p.2 none s < s.count p.1) (h p hp) hcut rfl

instance (b : Brackets) (t : Text) : Decidable (b.StrayFree t) := decidable_of_iff _ strayFree_iff_range.symm

/-! ## One character -/

section Step

variable {b : Brackets} {opened : List Char} {prev : Option Char} {c : Char} {p : Char × Char}

theorem closer_of_mem_all : ∀ p ∈ all.pairs, openerOf? p.2 = some p.1 ∧ all.opens p.2 = false := by
  decide

theorem pair_of_opener : ∀ p ∈ all.pairs, ∀ q ∈ all.pairs, p.1 = q.1 → p = q := by decide

theorem opens_of_mem (hp : p ∈ b.pairs) : b.opens p.1 = true :=
  List.any_eq_true.2 ⟨p, hp, beq_self_eq_true p.1⟩

theorem opens_closer (hb : b.Usual) (hp : p ∈ b.pairs) : b.opens p.2 = false :=
  opens_of_all hb (closer_of_mem_all p (hb p hp)).2

theorem opener_ne_closer (hb : b.Usual) (hp : p ∈ b.pairs) : p.1 ≠ p.2 := by
  intro he
  have hcloser := opens_closer hb hp
  rw [← he, opens_of_mem hp] at hcloser
  cases hcloser

theorem exists_of_closesHere (h : b.closesHere prev c = true) :
    ∃ p ∈ b.pairs, p.2 = c ∧ isArrowHead prev c = false := by
  simp only [closesHere, Bool.and_eq_true, Bool.not_eq_true'] at h
  obtain ⟨p, hp, hc⟩ := List.any_eq_true.1 h.1.2
  exact ⟨p, hp, by simpa using hc, h.2⟩

theorem closesHere_closer (hb : b.Usual) (hp : p ∈ b.pairs) (h : isArrowHead prev p.2 = false) :
    b.closesHere prev p.2 = true := by
  have hcloses : b.closes p.2 = true := List.any_eq_true.2 ⟨p, hp, beq_self_eq_true p.2⟩
  simp [closesHere, opens_closer hb hp, hcloses, h]

/-- What a character can do: open a bracket, close one of its kind if there is one, or nothing. -/
theorem step_cases (hb : b.Usual) (opened : List Char) (prev : Option Char) (c : Char) :
    (b.opens c = true ∧ b.step opened prev c = c :: opened) ∨
      (∃ p ∈ b.pairs, p.2 = c ∧ b.opens c = false ∧ b.closesHere prev c = true ∧
        b.step opened prev c = opened.erase p.1) ∨
      (b.opens c = false ∧ b.closesHere prev c = false ∧ b.step opened prev c = opened) := by
  cases ho : b.opens c with
  | true => exact .inl ⟨rfl, by rw [step, if_pos ho]⟩
  | false =>
    have hopen : ¬ b.opens c = true := by rw [ho]; exact Bool.false_ne_true
    cases hc : b.closesHere prev c with
    | true =>
      obtain ⟨p, hp, rfl, -⟩ := exists_of_closesHere hc
      refine .inr (.inl ⟨p, hp, rfl, rfl, rfl, ?_⟩)
      rw [step, if_neg hopen, if_pos hc, (closer_of_mem_all p (hb p hp)).1]
    | false =>
      have hclose : ¬ b.closesHere prev c = true := by rw [hc]; exact Bool.false_ne_true
      exact .inr (.inr ⟨rfl, rfl, by rw [step, if_neg hopen, if_neg hclose]⟩)

/-- What a character does to the number of open brackets of one kind: an opener of the kind adds one, a
    closer of the kind takes one away if there is one, and nothing else matters. -/
theorem count_step (hb : b.Usual) (hp : p ∈ b.pairs) (opened : List Char) (prev : Option Char)
    (c : Char) : (b.step opened prev c).count p.1 =
      if c = p.1 then opened.count p.1 + 1
      else if c = p.2 ∧ isArrowHead prev c = false then opened.count p.1 - 1
      else opened.count p.1 := by
  rcases step_cases hb opened prev c with ⟨ho, hstep⟩ | ⟨q, hq, rfl, ho, hc, hstep⟩ | ⟨ho, hc, hstep⟩
  · rw [hstep]
    by_cases hkind : c = p.1
    · rw [if_pos hkind, hkind, List.count_cons_self]
    · have hclose : ¬ (c = p.2 ∧ isArrowHead prev c = false) := by
        rintro ⟨rfl, -⟩
        rw [opens_closer hb hp] at ho
        cases ho
      rw [if_neg hkind, if_neg hclose, List.count_cons_of_ne hkind]
  · obtain ⟨-, -, -, harrow⟩ := exists_of_closesHere hc
    have hopen : q.2 ≠ p.1 := by
      rintro he
      rw [he, opens_of_mem hp] at ho
      cases ho
    rw [hstep, if_neg hopen]
    by_cases hkind : q.2 = p.2
    · have hopener : some q.1 = some p.1 := by
        rw [← (closer_of_mem_all q (hb q hq)).1, hkind, (closer_of_mem_all p (hb p hp)).1]
      rw [if_pos ⟨hkind, harrow⟩, Option.some.inj hopener, List.count_erase_self]
    · have hopener : q.1 ≠ p.1 := fun he =>
        hkind (congrArg Prod.snd (pair_of_opener q (hb q hq) p (hb p hp) he))
      rw [if_neg (fun h => hkind h.1), List.count_erase_of_ne (Ne.symm hopener)]
  · have hopen : c ≠ p.1 := by
      rintro rfl
      rw [opens_of_mem hp] at ho
      cases ho
    have hclose : ¬ (c = p.2 ∧ isArrowHead prev c = false) := by
      rintro ⟨rfl, harrow⟩
      rw [closesHere_closer hb hp harrow] at hc
      cases hc
    rw [hstep, if_neg hopen, if_neg hclose]

/-- Only openers are ever open. -/
theorem opens_of_mem_step (h : ∀ o ∈ opened, b.opens o = true) (prev : Option Char) (c : Char) :
    ∀ o ∈ b.step opened prev c, b.opens o = true := by
  intro o ho
  unfold step at ho
  split at ho
  · next hopens =>
    rcases List.mem_cons.1 ho with rfl | ho
    · exact hopens
    · exact h o ho
  · split at ho
    · split at ho
      · exact h o (List.mem_of_mem_erase ho)
      · exact h o ho
    · exact h o ho

end Step

/-! ## A character at the end of a text -/

section Texts

variable {b : Brackets} {p : Char × Char}

theorem openAfter_concat (t : Text) (c : Char) :
    b.openAfter [] none (t ++ [c]) = b.step (b.openAfter [] none t) t.getLast? c := by
  rw [openAfter_append, Option.or_none]
  rfl

theorem closings_append (closer : Char) (prev : Option Char) (s t : Text) :
    closings closer prev (s ++ t) =
      closings closer prev s + closings closer (s.getLast?.or prev) t := by
  induction s generalizing prev with
  | nil => rw [List.nil_append, closings, Nat.zero_add]; rfl
  | cons c s ih =>
    rw [List.cons_append, closings, closings, ih, Nat.add_assoc, List.getLast?_cons]
    cases s.getLast? <;> rfl

/-- The last character of a text that follows another one adds a closing or none. -/
theorem closings_concat (closer : Char) (s u : Text) (c : Char) :
    closings closer s.getLast? (u ++ [c]) = closings closer s.getLast? u +
      if c = closer ∧ isArrowHead (s ++ u).getLast? c = false then 1 else 0 := by
  rw [closings_append, ← List.getLast?_append]
  rfl

/-- Every ending of a longer text is the empty one or an ending of the shorter text, one character
    longer. -/
theorem forall_ending_concat {P : Text → Text → Prop} {t : Text} {c : Char}
    (hnil : P (t ++ [c]) []) :
    (∀ s u, t ++ [c] = s ++ u → P s u) ↔ ∀ s u, t = s ++ u → P s (u ++ [c]) := by
  constructor
  · rintro h s u rfl
    exact h s (u ++ [c]) (List.append_assoc s u [c])
  · intro h s u hcut
    rcases List.eq_nil_or_concat u with rfl | ⟨u, d, rfl⟩
    · rw [List.append_nil] at hcut
      exact hcut ▸ hnil
    · rw [List.concat_eq_append, ← List.append_assoc] at hcut
      obtain ⟨rfl, hlast⟩ := List.append_inj' hcut rfl
      obtain ⟨rfl, -⟩ := List.cons.inj hlast
      rw [List.concat_eq_append]
      exact h s u rfl

theorem opens_of_mem_openAfter (t : Text) : ∀ o ∈ b.openAfter [] none t, b.opens o = true := by
  induction t using List.reverseRecOn with
  | nil => exact fun o ho => absurd ho List.not_mem_nil
  | append_singleton t c ih =>
    rw [openAfter_concat]
    exact opens_of_mem_step ih t.getLast? c

/-! ## What is open after a text -/

/-- Of one kind at most `n` brackets are open after a text exactly when no ending of the text opens it
    more than `n` times oftener than it closes it. -/
theorem count_openAfter_le_iff (hb : b.Usual) (hp : p ∈ b.pairs) (t : Text) (n : Nat) :
    (b.openAfter [] none t).count p.1 ≤ n ↔
      ∀ s u, t = s ++ u → u.count p.1 ≤ n + closings p.2 s.getLast? u := by
  induction t using List.reverseRecOn generalizing n with
  | nil =>
    refine iff_of_true (Nat.zero_le n) fun s u hcut => ?_
    obtain ⟨-, rfl⟩ := List.append_eq_nil_iff.1 hcut.symm
    exact Nat.zero_le _
  | append_singleton t c ih =>
    have hone : ∀ s u, t = s ++ u → closings p.2 s.getLast? (u ++ [c]) = closings p.2 s.getLast? u +
        if c = p.2 ∧ isArrowHead t.getLast? c = false then 1 else 0 := by
      rintro s u rfl
      exact closings_concat p.2 s u c
    rw [forall_ending_concat (Nat.zero_le _), openAfter_concat, count_step hb hp]
    by_cases hopen : c = p.1
    · have hclose : ¬ (c = p.2 ∧ isArrowHead t.getLast? c = false) :=
        fun hc => opener_ne_closer hb hp (hopen ▸ hc.1)
      rw [if_pos hopen]
      simp only [if_neg hclose] at hone
      cases n with
      | zero =>
        -- the empty ending of `t` opens nothing, and the new character opens one bracket behind it
        refine iff_of_false (Nat.not_succ_le_zero _) fun h => ?_
        have hend := h t [] (List.append_nil t).symm
        rw [hone t [] (List.append_nil t).symm, List.nil_append, hopen, List.count_singleton_self] at hend
        exact Nat.not_succ_le_zero 0 hend
      | succ n =>
        rw [Nat.succ_le_succ_iff, ih n]
        refine forall_congr' fun s => forall_congr' fun u => imp_congr_right fun hcut => ?_
        rw [hone s u hcut, List.count_append, hopen, List.count_singleton_self]
        omega
    · rw [if_neg hopen]
      have hcount (u : Text) : (u ++ [c]).count p.1 = u.count p.1 := by
        rw [List.count_append, List.count_cons_of_ne hopen, List.count_nil, Nat.add_zero]
      by_cases hclose : c = p.2 ∧ isArrowHead t.getLast? c = false
      · simp only [if_pos hclose] at hone ⊢
        rw [Nat.sub_le_iff_le_add, ih (n + 1)]
        refine forall_congr' fun s => forall_congr' fun u => imp_congr_right fun hcut => ?_
        rw [hone s u hcut, hcount]
        omega
      · simp only [if_neg hclose] at hone ⊢
        rw [ih n]
        refine forall_congr' fun s => forall_congr' fun u => imp_congr_right fun hcut => ?_
        rw [hone s u hcut, hcount]
        rfl

/-- Nothing is open after a text exactly when no ending of it leaves a bracket open. -/
theorem allClosed_iff (hb : b.Usual) {t : Text} : b.AllClosed t ↔ b.openAfter [] none t = [] := by
  constructor
  · intro h
    refine List.eq_nil_iff_forall_not_mem.2 fun o ho => ?_
    obtain ⟨p, hp, hkind⟩ := List.any_eq_true.1 (opens_of_mem_openAfter t o ho)
    obtain rfl : p.1 = o := by simpa using hkind
    have hnone : (b.openAfter [] none t).count p.1 ≤ 0 :=
      (count_openAfter_le_iff hb hp t 0).2 fun s u hcut => by
        rw [Nat.zero_add]
        exact h p hp s u hcut
    exact absurd (List.count_pos_iff.2 ho) (Nat.not_lt.2 hnone)
  · intro h p hp s u hcut
    have hnone : (b.openAfter [] none t).count p.1 ≤ 0 := by rw [h]; exact Nat.le_refl 0
    have hending := (count_openAfter_le_iff hb hp t 0).1 hnone s u hcut
    rwa [Nat.zero_add] at hending

/-! ## Texts without stray closers -/

theorem StrayFree.left {s u : Text} (h : b.StrayFree (s ++ u)) : b.StrayFree s := by
  rintro p hp a r rfl harrow
  exact h p hp a (r ++ u) (by rw [List.append_assoc, List.cons_append]) harrow

/-- Without stray closers, of each kind as many brackets are open as have been opened and not closed. -/
theorem count_openAfter_of_strayFree (hb : b.Usual) {t : Text} (h : b.StrayFree t) (hp : p ∈ b.pairs) :
    (b.openAfter [] none t).count p.1 + closings p.2 none t = t.count p.1 := by
  induction t using List.reverseRecOn with
  | nil => rfl
  | append_singleton t c ih =>
    have hcount := ih h.left
    have hone := closings_concat p.2 [] t c
    rw [List.getLast?_nil, List.nil_append] at hone
    rw [openAfter_concat, count_step hb hp, hone, List.count_append]
    by_cases hopen : c = p.1
    · have hclose : ¬ (c = p.2 ∧ isArrowHead t.getLast? c = false) :=
        fun hc => opener_ne_closer hb hp (hopen ▸ hc.1)
      rw [if_pos hopen, if_neg hclose, hopen, List.count_singleton_self]
      omega
    · rw [if_neg hopen, List.count_cons_of_ne hopen, List.count_nil]
      by_cases hclose : c = p.2 ∧ isArrowHead t.getLast? c = false
      · obtain ⟨rfl, harrow⟩ := hclose
        have hmore := h p hp t [] rfl harrow
        rw [if_pos ⟨rfl, harrow⟩, if_pos ⟨rfl, harrow⟩]
        omega
      · rw [if_neg hclose, if_neg hclose]
        omega

/-- Without stray closers, every closer has an open bracket of its kind. -/
theorem StrayFree.exists_opener (hb : b.Usual) {s u : Text} {c : Char} (h : b.StrayFree (s ++ c :: u))
    (hc : b.closesHere s.getLast? c = true) :
    ∃ p ∈ b.pairs, p.2 = c ∧ p.1 ∈ b.openAfter [] none s := by
  obtain ⟨p, hp, rfl, harrow⟩ := exists_of_closesHere hc
  have hmore := h p hp s u rfl harrow
  have hcount := count_openAfter_of_strayFree hb h.left hp
  exact ⟨p, hp, rfl, List.count_pos_iff.1 (by omega)⟩

end Texts

end Synopsis.Brackets
