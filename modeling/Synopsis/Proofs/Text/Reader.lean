import Synopsis.Proofs.Text.Blank
import Synopsis.Scan.Reader

/-!
# What readers take, and what they take from a squeezed text

A reader applied to a text that was put together from its parts gives the parts back
(`run?_append`, `keyword?_append`, `flag_append`). A reader that does not take blanks for anything but
gaps reads a squeezed text as it reads the text itself.
-/

namespace Synopsis.Text

/-! ## Characters -/

/-- The code points of the blanks. -/
def blankPoints : List Nat :=
  [9, 10, 11, 12, 13, 28, 29, 30, 31, 32, 0x85, 0xA0, 0x1680, 0x2000, 0x2001, 0x2002, 0x2003, 0x2004,
    0x2005, 0x2006, 0x2007, 0x2008, 0x2009, 0x200A, 0x2028, 0x2029, 0x202F, 0x205F, 0x3000]

theorem toNat_mem_blankPoints {c : Char} (h : isBlank c = true) : c.toNat ∈ blankPoints := by
  -- The blanks stand in runs, as in the definition: no run is split into its points.
  have hruns : ∀ n ∈ List.range' 9 5 ++ List.range' 28 5 ++ List.range' 0x2000 11 ++
      [0x85, 0xA0, 0x1680, 0x2028, 0x2029, 0x202F, 0x205F, 0x3000], n ∈ blankPoints := by decide
  refine hruns c.toNat ?_
  simp only [isBlank, Bool.or_eq_true, Bool.and_eq_true, decide_eq_true_eq, beq_iff_eq] at h
  simp only [List.mem_append, List.mem_range'_1, List.mem_cons, List.not_mem_nil, or_false]
  grind

/-- No blank is a word character. -/
theorem isWord_of_blank {c : Char} (h : isBlank c = true) : isWord c = false := by
  have htable : ∀ n ∈ blankPoints, isWord (Char.ofNat n) = false := by decide +kernel
  rw [← Char.ofNat_toNat c]
  exact htable c.toNat (toNat_mem_blankPoints h)

theorem isBlank_of_isWord {c : Char} (h : isWord c = true) : isBlank c = false := by
  cases hb : isBlank c with
  | false => rfl
  | true => rw [isWord_of_blank hb] at h; cases h

theorem toNat_lt_of_isAlpha {c : Char} (h : c.isAlpha = true) : c.toNat < 128 := by
  have hcases : c.isUpper = true ∨ c.isLower = true := Bool.or_eq_true_iff.1 h
  rcases hcases with h | h
  · have hle : c.val ≤ 'Z'.val := (of_decide_eq_true h).2
    exact Nat.lt_of_le_of_lt (UInt32.le_iff_toNat_le.1 hle) (by decide)
  · have hle : c.val ≤ 'z'.val := of_decide_eq_true (Bool.and_eq_true_iff.1 h).2
    exact Nat.lt_of_le_of_lt (UInt32.le_iff_toNat_le.1 hle) (by decide)

theorem isWord_of_isNameStart {c : Char} (h : isNameStart c = true) : isWord c = true := by
  rcases Bool.or_eq_true_iff.1 h with h | h
  · rw [isWord, if_pos (toNat_lt_of_isAlpha h), Char.isAlphanum, h]
    rfl
  · obtain rfl : c = '_' := by simpa using h
    decide

theorem all_isWord_of_isName {t : Text} (h : isName t = true) : t.all isWord = true := by
  cases t with
  | nil => cases h
  | cons c t =>
    obtain ⟨hc, ht⟩ := Bool.and_eq_true_iff.1 h
    rw [List.all_cons, isWord_of_isNameStart hc, ht, Bool.true_and]

theorem trim_of_isName {t : Text} (h : isName t = true) : trim t = t :=
  trim_of_solid fun c hc => isBlank_of_isWord (List.all_eq_true.1 (all_isWord_of_isName h) c hc)

/-! ## Names with dollar signs -/

theorem isDollarWord_of_isWord {c : Char} (h : isWord c = true) : isDollarWord c = true := by
  rw [isDollarWord, h, Bool.true_or]

theorem isDollarStart_of_isNameStart {c : Char} (h : isNameStart c = true) :
    isDollarStart c = true := by
  rw [isDollarStart, h, Bool.true_or]

theorem isDollarWord_of_isDollarStart {c : Char} (h : isDollarStart c = true) :
    isDollarWord c = true := by
  rw [isDollarStart, Bool.or_eq_true] at h
  rcases h with h | h
  · exact isDollarWord_of_isWord (isWord_of_isNameStart h)
  · rw [isDollarWord, h, Bool.or_true]

theorem isBlank_of_isDollarWord {c : Char} (h : isDollarWord c = true) : isBlank c = false := by
  rw [isDollarWord, Bool.or_eq_true] at h
  rcases h with h | h
  · exact isBlank_of_isWord h
  · rw [eq_of_beq h]
    rfl

theorem all_isDollarWord {name : Text} (h : isDollarName name = true) :
    name ≠ [] ∧ name.all isDollarWord = true := by
  cases name with
  | nil => cases h
  | cons c name =>
    obtain ⟨hc, hname⟩ := Bool.and_eq_true_iff.1 h
    exact ⟨List.cons_ne_nil c name,
      Bool.and_eq_true_iff.2 ⟨isDollarWord_of_isDollarStart hc, hname⟩⟩

theorem isDollarName_of_isName {name : Text} (h : isName name = true) : isDollarName name = true := by
  cases name with
  | nil => cases h
  | cons c name =>
    obtain ⟨hc, hname⟩ := Bool.and_eq_true_iff.1 h
    refine Bool.and_eq_true_iff.2 ⟨isDollarStart_of_isNameStart hc, ?_⟩
    exact List.all_eq_true.2 fun x hx => isDollarWord_of_isWord (List.all_eq_true.1 hname x hx)

theorem solid_of_isDollarName {name : Text} (h : isDollarName name = true) :
    ∀ c ∈ name, isBlank c = false := fun c hc =>
  isBlank_of_isDollarWord (List.all_eq_true.1 (all_isDollarWord h).2 c hc)

theorem not_mem_of_isDollarName {name : Text} (h : isDollarName name = true) {c : Char}
    (hc : isDollarWord c = false) : c ∉ name :=
  not_mem_of_all (all_isDollarWord h).2 hc

theorem trim_of_isDollarName {name : Text} (h : isDollarName name = true) : trim name = name :=
  trim_of_solid (solid_of_isDollarName h)

/-! ## Taking a lead -/

@[simp] theorem after?_append (lead t : Text) : after? lead (lead ++ t) = some t :=
  after?_eq_some.2 rfl

theorem after?_eq_none_of_head {lead t : Text} {c : Char} (hl : lead.head? = some c)
    (ht : t.head? ≠ some c) : after? lead t = none := by
  cases h : after? lead t with
  | none => rfl
  | some r =>
    obtain ⟨u, rfl⟩ := List.head?_eq_some_iff.1 hl
    rw [after?_eq_some.1 h] at ht
    simp at ht

/-- A lead is found before a character that it cannot hold, or not at all. -/
theorem after?_append_cons {lead : Text} {c : Char} (hc : c ∉ lead) (s t : Text) :
    after? lead (s ++ c :: t) = (after? lead s).map (· ++ c :: t) := by
  induction lead generalizing s with
  | nil => rfl
  | cons x lead ih =>
    obtain ⟨hx, hlead⟩ : c ≠ x ∧ c ∉ lead := by simpa using hc
    cases s with
    | nil => exact if_neg (Ne.symm hx)
    | cons y s =>
      rw [List.cons_append, after?, after?]
      split
      · exact ih hlead s
      · rfl

/-- A lead that cannot hold the last character of a text is found in the text or not at all. -/
theorem after?_append_of_getLast? {lead s : Text} {c : Char} (hs : s.getLast? = some c)
    (hc : c ∉ lead) (t : Text) : after? lead (s ++ t) = (after? lead s).map (· ++ t) := by
  obtain ⟨u, rfl⟩ := List.getLast?_eq_some_iff.1 hs
  rw [List.append_assoc, List.singleton_append, after?_append_cons hc, after?_append_cons hc,
    Option.map_map]
  congr 1
  funext r
  simp

theorem after?_append_of_length_le {lead s : Text} (h : lead.length ≤ s.length) (t : Text) :
    after? lead (s ++ t) = (after? lead s).map (· ++ t) := by
  induction lead generalizing s with
  | nil => rfl
  | cons x lead ih =>
    cases s with
    | nil => simp at h
    | cons c s =>
      rw [List.cons_append, after?, after?]
      split
      · exact ih (by simpa using h)
      · rfl

theorem after?_squeeze {lead : Text} (hlead : lead.any isBlank = false) (t : Text) :
    after? lead (squeeze t) = (after? lead t).map squeeze := by
  induction lead generalizing t with
  | nil => rfl
  | cons x lead ih =>
    obtain ⟨hx, hlead⟩ : isBlank x = false ∧ lead.any isBlank = false := by simpa using hlead
    cases t with
    | nil => rfl
    | cons c t =>
      cases hc : isBlank c with
      | true =>
        rw [squeeze_cons_of_blank hc, after?, if_neg (ne_of_blank isBlank_space hx).symm, after?,
          if_neg (ne_of_blank hc hx).symm]
        rfl
      | false =>
        rw [squeeze_cons_of_not hc, after?, after?, ih hlead]
        split <;> rfl

/-! ## Taking a run -/

theorem run?_eq (p : Char → Bool) (t : Text) :
    run? p t = if t.head?.any p then some (t.takeWhile p, t.dropWhile p) else none := by
  cases t with
  | nil => rfl
  | cons c t => cases h : p c <;> simp [run?, h]

theorem skip1?_eq (p : Char → Bool) (t : Text) :
    skip1? p t = if t.head?.any p then some (t.dropWhile p) else none := by
  rw [skip1?, run?_eq]
  split <;> rfl

theorem not_of_head?_dropWhile {p : Char → Bool} {t : Text} {c : Char}
    (h : (t.dropWhile p).head? = some c) : p c = false := by
  have hnot := List.head?_dropWhile_not p t
  rw [h] at hnot
  simpa using hnot

theorem notBefore_dropWhile (p : Char → Bool) (t : Text) : notBefore p (t.dropWhile p) = true := by
  rw [notBefore]
  cases h : (t.dropWhile p).head? with
  | none => rfl
  | some c => simp [not_of_head?_dropWhile h]

theorem takeWhile_append_of_all {p : Char → Bool} {r : Text} (hr : r.all p = true) {t : Text}
    (ht : notBefore p t = true) : (r ++ t).takeWhile p = r ∧ (r ++ t).dropWhile p = t := by
  have htake : t.takeWhile p = [] ∧ t.dropWhile p = t := by
    cases t with
    | nil => simp
    | cons c t => simp_all [notBefore]
  rw [List.takeWhile_append_of_pos (by simpa using hr),
    List.dropWhile_append_of_pos (by simpa using hr), htake.1, htake.2]
  simp

theorem suffix_takeTrailing (p : Char → Bool) (t : Text) : takeTrailing p t <:+ t := by
  rw [← List.reverse_prefix, takeTrailing, List.reverse_reverse]
  exact List.takeWhile_prefix p

theorem all_takeTrailing (p : Char → Bool) (t : Text) : (takeTrailing p t).all p = true := by
  rw [takeTrailing, List.all_reverse]
  exact List.all_takeWhile

theorem takeTrailing_append {p : Char → Bool} {s t : Text} (ht : t.all p = true)
    (hs : s.getLast?.any p = false) :
    takeTrailing p (s ++ t) = t ∧ dropTrailing p (s ++ t) = s := by
  have hstop : notBefore p s.reverse = true := by
    rw [notBefore, List.head?_reverse, hs]
    rfl
  obtain ⟨htake, hdrop⟩ := takeWhile_append_of_all (r := t.reverse) (by rwa [List.all_reverse]) hstop
  rw [takeTrailing, dropTrailing, List.reverse_append, htake, hdrop, List.reverse_reverse,
    List.reverse_reverse]
  exact ⟨rfl, rfl⟩

/-- Where a tail begins is told by the last character before it. -/
theorem append_inj_of_trailing {p : Char → Bool} {s s' t t' : Text} (ht : t.all p = true)
    (ht' : t'.all p = true) (hs : s.getLast?.any p = false) (hs' : s'.getLast?.any p = false)
    (h : s ++ t = s' ++ t') : s = s' ∧ t = t' := by
  obtain ⟨htake, hdrop⟩ := takeTrailing_append ht hs
  obtain ⟨htake', hdrop'⟩ := takeTrailing_append ht' hs'
  rw [h] at htake hdrop
  exact ⟨hdrop.symm.trans hdrop', htake.symm.trans htake'⟩

theorem lastWord?_eq {t : Text} (hne : t ≠ []) (ht : trimEnd t = t) :
    lastWord? t = some (nonempty? (trimEnd (dropTrailing (!isBlank ·) t)),
      takeTrailing (!isBlank ·) t) := by
  rw [lastWord?, ht]
  cases t with
  | nil => exact absurd rfl hne
  | cons c t => rfl

theorem solid_of_lastWord? {t name : Text} {head : Option Text} (h : lastWord? t = some (head, name)) :
    ∀ c ∈ name, isBlank c = false := by
  unfold lastWord? at h
  split at h
  · cases h
  · obtain ⟨-, rfl⟩ := Prod.mk.inj (Option.some.inj h)
    intro c hc
    simpa using List.all_eq_true.1 (all_takeTrailing (!isBlank ·) _) c hc

theorem solid_of_firstWord? {t name : Text} {rest : Option Text} (h : firstWord? t = some (name, rest)) :
    ∀ c ∈ name, isBlank c = false := by
  unfold firstWord? at h
  split at h
  · cases h
  · obtain ⟨rfl, -⟩ := Prod.mk.inj (Option.some.inj h)
    intro c hc
    simpa using List.all_eq_true.1 List.all_takeWhile c hc

theorem lastWord?_append {t w : Text} (hne : t ≠ []) (ht : trim t = t) (hw : w ≠ [])
    (hsolid : ∀ c ∈ w, isBlank c = false) : lastWord? (t ++ ' ' :: w) = some (some t, w) := by
  have hend : trimEnd (t ++ [' '] ++ w) = t ++ [' '] ++ w :=
    trimEnd_append_of_trim hw (trim_of_solid hsolid) _
  have hall : w.all (!isBlank ·) = true := List.all_eq_true.2 fun c hc => by rw [hsolid c hc]; rfl
  obtain ⟨htake, hdrop⟩ := takeTrailing_append (p := (!isBlank ·)) (s := t ++ [' ']) hall (by simp)
  have hlead : trimEnd (t ++ [' ']) = t := by
    rw [trimEnd_append_of_blank rfl, trimEnd_eq_self (trim_eq_self_iff.1 ht).2]
  rw [List.append_cons, lastWord?_eq (List.append_ne_nil_of_right_ne_nil _ hw) hend, hdrop, htake,
    hlead, nonempty?_of_ne_nil hne]

theorem lastWord?_of_solid {w : Text} (hw : w ≠ []) (hsolid : ∀ c ∈ w, isBlank c = false) :
    lastWord? w = some (none, w) := by
  have hall : w.all (!isBlank ·) = true := List.all_eq_true.2 fun c hc => by rw [hsolid c hc]; rfl
  obtain ⟨htake, hdrop⟩ := takeTrailing_append (p := (!isBlank ·)) (s := []) hall rfl
  rw [List.nil_append] at htake hdrop
  rw [lastWord?_eq hw (trimEnd_append_of_trim hw (trim_of_solid hsolid) []), hdrop, htake]
  rfl

theorem before_append {c : Char} {s : Text} (hs : c ∉ s) (t : Text) :
    before c (s ++ c :: t) = s := by
  refine (takeWhile_append_of_all ?_ (by simp [notBefore])).1
  exact List.all_eq_true.2 fun x hx => decide_eq_true fun he => hs (he ▸ hx)

theorem before_append_of_not_mem {c : Char} {s : Text} (hs : c ∉ s) (t : Text) :
    before c (s ++ t) = s ++ before c t :=
  List.takeWhile_append_of_pos fun _ hx => decide_eq_true fun he => hs (he ▸ hx)

theorem before_append_of_mem {c : Char} {s : Text} (hs : c ∈ s) (t : Text) :
    before c (s ++ t) = before c s := by
  obtain ⟨a, b, rfl, ha⟩ := List.eq_append_cons_of_mem hs
  rw [List.append_assoc, List.cons_append, before_append ha, before_append ha]

theorem before_eq_nil_of_head? {c : Char} {t : Text} (h : t.head? = some c) : before c t = [] := by
  obtain ⟨u, rfl⟩ := List.head?_eq_some_iff.1 h
  exact before_append List.not_mem_nil u

theorem before_eq_self {c : Char} {t : Text} (h : c ∉ t) : before c t = t := by
  have hall : t.all (fun x => decide (x ≠ c)) = true :=
    List.all_eq_true.2 fun x hx => decide_eq_true fun he => h (he ▸ hx)
  have htake := (takeWhile_append_of_all hall (t := []) rfl).1
  rwa [List.append_nil] at htake

theorem not_mem_before (c : Char) (t : Text) : c ∉ before c t :=
  not_mem_of_all List.all_takeWhile (by simp)

theorem mem_of_mem_afterLast {c d : Char} {t : Text} (h : d ∈ afterLast c t) : d ∈ t ∧ d ≠ c := by
  have hmem := List.mem_reverse.1 h
  refine ⟨List.mem_reverse.1 ((List.takeWhile_prefix _).subset hmem), ?_⟩
  rintro rfl
  exact not_mem_before d t.reverse hmem

theorem cutAt?_append {c : Char} {s : Text} (hs : c ∉ s) (t : Text) :
    cutAt? c (s ++ c :: t) = some (s, t) := by
  induction s with
  | nil => rw [List.nil_append, cutAt?, if_pos rfl]
  | cons x s ih =>
    obtain ⟨hx, hs⟩ := not_or.1 (mt List.mem_cons.2 hs)
    rw [List.cons_append, cutAt?, if_neg (Ne.symm hx), ih hs]
    rfl

theorem eq_append_of_cutAt? {c : Char} {t head rest : Text} (h : cutAt? c t = some (head, rest)) :
    t = head ++ c :: rest := by
  induction t generalizing head with
  | nil => cases h
  | cons x t ih =>
    rw [cutAt?] at h
    split at h
    · next hx =>
      cases h
      rw [hx]
      rfl
    · obtain ⟨⟨head', rest'⟩, hcut, he⟩ := Option.map_eq_some_iff.1 h
      cases he
      rw [ih hcut, List.cons_append]

/-- The first occurrence of a mark stays the first one when the text goes on. -/
theorem cut?_append {mark t head rest : Text} (h : cut? mark t = some (head, rest)) (u : Text) :
    cut? mark (t ++ u) = some (head, rest ++ u) := by
  induction t generalizing head with
  | nil =>
    obtain ⟨r, hr, he⟩ := Option.map_eq_some_iff.1 h
    cases he
    obtain ⟨rfl, rfl⟩ := List.append_eq_nil_iff.1 (after?_eq_some.1 hr).symm
    cases u <;> rfl
  | cons c t ih =>
    have hlen := congrArg List.length (eq_of_cut? h)
    simp only [List.length_append] at hlen
    have hfits : mark.length ≤ (c :: t).length := by omega
    have hafter := after?_append_of_length_le hfits u
    rw [cut?] at h
    rw [List.cons_append] at hafter ⊢
    rw [cut?, hafter]
    split at h
    · next r hr =>
      cases h
      rw [hr]
      rfl
    · next hnone =>
      obtain ⟨⟨head', rest'⟩, hcut, he⟩ := Option.map_eq_some_iff.1 h
      cases he
      rw [hnone, Option.map_none]
      simp only [ih hcut]
      rfl

/-- Nothing can be cut exactly where the mark does not occur. -/
theorem cut?_eq_none_iff {mark t : Text} : cut? mark t = none ↔ ¬ mark <:+: t := by
  constructor
  · intro h
    induction t with
    | nil =>
      intro hmark
      obtain rfl := List.infix_nil.1 hmark
      cases h
    | cons c t ih =>
      rw [cut?] at h
      split at h
      · cases h
      · next hafter =>
        intro hmark
        rcases List.infix_cons_iff.1 hmark with ⟨u, hu⟩ | hmark
        · rw [after?_eq_some.2 hu.symm] at hafter
          cases hafter
        · exact ih (Option.map_eq_none_iff.1 h) hmark
  · intro h
    cases hcut : cut? mark t with
    | none => rfl
    | some cut => exact absurd ⟨cut.1, cut.2, (eq_of_cut? hcut).symm⟩ h

theorem holds_eq_false_iff {part t : Text} : holds part t = false ↔ ¬ part <:+: t := by
  rw [← cut?_eq_none_iff, holds, Option.isSome_eq_false_iff, Option.isNone_iff_eq_none]

/-- A mark does not begin before the first place where its first character stands. -/
theorem cut?_append_left {mark a : Text} {c : Char} (hmark : mark.head? = some c) (ha : c ∉ a)
    (t : Text) : cut? mark (a ++ t) = (cut? mark t).map fun cut => (a ++ cut.1, cut.2) := by
  induction a with
  | nil => simp
  | cons x a ih =>
    simp only [List.mem_cons, not_or] at ha
    have hafter : after? mark (x :: (a ++ t)) = none :=
      after?_eq_none_of_head hmark (by simpa using Ne.symm ha.1)
    rw [List.cons_append, cut?, hafter, ih ha.2, Option.map_map]
    rfl

theorem run?_append {p : Char → Bool} {r : Text} (hne : r ≠ []) (hr : r.all p = true) {t : Text}
    (ht : notBefore p t = true) : run? p (r ++ t) = some (r, t) := by
  obtain ⟨htake, hdrop⟩ := takeWhile_append_of_all hr ht
  rw [run?_eq, htake, hdrop, if_pos]
  cases r with
  | nil => exact absurd rfl hne
  | cons c r => simp_all

/-- A run ends before a character that does not belong to it. -/
theorem run?_append_cons {p : Char → Bool} {c : Char} (hc : p c = false) (s t : Text) :
    run? p (s ++ c :: t) = (run? p s).map fun m => (m.1, m.2 ++ c :: t) := by
  have htake : (s ++ c :: t).takeWhile p = s.takeWhile p := by
    induction s with
    | nil => simp [hc]
    | cons x s ih => rw [List.cons_append, List.takeWhile_cons, List.takeWhile_cons, ih]
  have hhead : (s ++ c :: t).head?.any p = s.head?.any p := by
    cases s <;> simp [hc]
  rw [run?_eq, run?_eq, htake, dropWhile_append_cons hc, hhead]
  split <;> rfl

/-- A run is not empty, holds only its own characters, and nothing of them follows it. -/
theorem eq_append_of_run? {p : Char → Bool} {t r rest : Text} (h : run? p t = some (r, rest)) :
    t = r ++ rest ∧ r ≠ [] ∧ r.all p = true ∧ notBefore p rest = true := by
  rw [run?_eq] at h
  split at h
  · next hp =>
    obtain ⟨rfl, rfl⟩ := Prod.mk.inj (Option.some.inj h)
    refine ⟨List.takeWhile_append_dropWhile.symm, ?_, by simp, ?_⟩
    · cases t with
      | nil => simp at hp
      | cons c t => simp_all
    · exact notBefore_dropWhile p t
  · cases h

/-- A word: at least one word character, and nothing else. -/
def IsWordRun (t : Text) : Prop := t ≠ [] ∧ t.all isWord = true

theorem isWordRun_of_word? {t name rest : Text} (h : word? t = some (name, rest)) :
    IsWordRun name :=
  ⟨(eq_append_of_run? h).2.1, (eq_append_of_run? h).2.2.1⟩

theorem isWordRun_of_isName {t : Text} (h : isName t = true) : IsWordRun t := by
  refine ⟨?_, all_isWord_of_isName h⟩
  rintro rfl
  cases h

theorem IsWordRun.head? {t : Text} (h : IsWordRun t) : ∃ c, t.head? = some c ∧ isWord c = true := by
  obtain ⟨hne, hall⟩ := h
  cases t with
  | nil => exact absurd rfl hne
  | cons c t => exact ⟨c, rfl, (Bool.and_eq_true_iff.1 hall).1⟩

theorem IsWordRun.notBefore_isBlank {t : Text} (h : IsWordRun t) (u : Text) :
    notBefore isBlank (t ++ u) = true := by
  obtain ⟨c, hc, hword⟩ := h.head?
  simp [notBefore, hc, isBlank_of_isWord hword]

/-- A name is read up to the first character that cannot go on with it. -/
theorem nameOf?_append {start more : Char → Bool} {c : Char} {name t : Text} (hc : start c = true)
    (hname : name.all more = true) (ht : notBefore more t = true) :
    nameOf? start more (c :: name ++ t) = some (c :: name, t) := by
  obtain ⟨htake, hdrop⟩ := takeWhile_append_of_all hname ht
  rw [List.cons_append, nameOf?, if_pos hc, htake, hdrop]

theorem name?_append {name t : Text} (h : isName name = true) (ht : notBefore isWord t = true) :
    name? (name ++ t) = some (name, t) := by
  cases name with
  | nil => cases h
  | cons c name =>
    obtain ⟨hc, hname⟩ := Bool.and_eq_true_iff.1 h
    exact nameOf?_append hc hname ht

theorem dollarName?_append {name t : Text} (h : isDollarName name = true)
    (ht : notBefore isDollarWord t = true) : dollarName? (name ++ t) = some (name, t) := by
  cases name with
  | nil => cases h
  | cons c name =>
    obtain ⟨hc, hname⟩ := Bool.and_eq_true_iff.1 h
    exact nameOf?_append hc hname ht

theorem eq_append_of_nameOf? {start more : Char → Bool} {t name rest : Text}
    (h : nameOf? start more t = some (name, rest)) :
    t = name ++ rest ∧ ∃ c u, name = c :: u ∧ start c = true ∧ u.all more = true := by
  cases t with
  | nil => cases h
  | cons c t =>
    rw [nameOf?] at h
    split at h
    · next hc =>
      obtain ⟨rfl, rfl⟩ := Prod.mk.inj (Option.some.inj h)
      refine ⟨?_, c, t.takeWhile more, rfl, hc, List.all_takeWhile⟩
      rw [List.cons_append, List.takeWhile_append_dropWhile]
    · cases h

theorem isName_of_name? {t name rest : Text} (h : name? t = some (name, rest)) :
    isName name = true := by
  obtain ⟨-, c, u, rfl, hc, hu⟩ := eq_append_of_nameOf? h
  exact Bool.and_eq_true_iff.2 ⟨hc, hu⟩

theorem isDollarName_of_dollarName? {t name rest : Text} (h : dollarName? t = some (name, rest)) :
    isDollarName name = true := by
  obtain ⟨-, c, u, rfl, hc, hu⟩ := eq_append_of_nameOf? h
  exact Bool.and_eq_true_iff.2 ⟨hc, hu⟩

theorem keywordBy?_run {gap : Char → Bool} (word : String) {g t : Text} (hne : g ≠ [])
    (hg : g.all gap = true) (ht : notBefore gap t = true) :
    keywordBy? gap word (word.toList ++ (g ++ t)) = some t := by
  rw [keywordBy?, after?_append, Option.bind_some, skip1?, run?_append hne hg ht]
  rfl

theorem keywordBy?_append {gap : Char → Bool} (hspace : gap ' ' = true) (word : String) {t : Text}
    (ht : notBefore gap t = true) : keywordBy? gap word (word.toList ++ ' ' :: t) = some t :=
  keywordBy?_run word (g := [' ']) (by simp) (by simpa using hspace) ht

theorem keyword?_append {word : String} {t : Text} (ht : notBefore isBlank t = true) :
    keyword? word (word.toList ++ ' ' :: t) = some t :=
  keywordBy?_append isBlank_space word ht

theorem eq_append_of_keyword? {word : String} {t rest : Text} (h : keyword? word t = some rest) :
    ∃ g, g ≠ [] ∧ blank g = true ∧ t = word.toList ++ (g ++ rest) := by
  obtain ⟨u, hu, hskip⟩ := Option.bind_eq_some_iff.1 h
  obtain ⟨⟨g, rest'⟩, hrun, rfl⟩ := Option.map_eq_some_iff.1 hskip
  obtain ⟨rfl, hne, hall, -⟩ := eq_append_of_run? hrun
  exact ⟨g, hne, hall, after?_eq_some.1 hu⟩

theorem keywordBy?_eq_none_of_head {gap : Char → Bool} {word : String} {t : Text} {c : Char}
    (hw : word.toList.head? = some c) (ht : t.head? ≠ some c) : keywordBy? gap word t = none := by
  rw [keywordBy?, after?_eq_none_of_head hw ht]
  rfl

theorem keyword?_eq_none_of_head {word : String} {t : Text} {c : Char}
    (hw : word.toList.head? = some c) (ht : t.head? ≠ some c) : keyword? word t = none :=
  keywordBy?_eq_none_of_head hw ht

theorem keyword?_eq_none {word : String} {t : Text} (hne : word.toList ≠ [])
    (h : word.toList.head? ≠ t.head?) : keyword? word t = none := by
  obtain ⟨c, u, hw⟩ := List.exists_cons_of_ne_nil hne
  rw [hw] at h
  exact keyword?_eq_none_of_head (c := c) (by rw [hw]; rfl) (Ne.symm h)

/-- No blank follows a word where a name goes on, so it is not taken for a keyword. -/
theorem keyword?_eq_none_of_solid {word : String} {n : Text} {c : Char}
    (hn : ∀ x ∈ n, isBlank x = false) (hc : isBlank c = false) (hw : c ∉ word.toList) (t : Text) :
    keyword? word (n ++ c :: t) = none := by
  cases h : keyword? word (n ++ c :: t) with
  | none => rfl
  | some rest =>
    obtain ⟨g, hne, hg, heq⟩ := eq_append_of_keyword? h
    obtain ⟨x, g, rfl⟩ := List.exists_cons_of_ne_nil hne
    have hx : isBlank x = true := (Bool.and_eq_true_iff.1 hg).1
    -- The blank behind the word would stand in the name, or the word would go beyond the name.
    rcases List.append_eq_append_iff.1 heq with ⟨u, hu, ht⟩ | ⟨u, rfl, ht⟩
    · cases u with
      | nil =>
        obtain ⟨rfl, -⟩ := List.cons.inj ht
        rw [hx] at hc
        cases hc
      | cons y u =>
        obtain ⟨rfl, -⟩ := List.cons.inj ht
        exact absurd (by rw [hu]; simp) hw
    · cases u with
      | nil =>
        obtain ⟨rfl, -⟩ := List.cons.inj ht
        rw [hx] at hc
        cases hc
      | cons y u =>
        obtain ⟨rfl, -⟩ := List.cons.inj ht
        rw [hn x (by simp)] at hx
        cases hx

/-- A text begins with one keyword at most: the blank behind a word tells where the word ends. -/
theorem eq_of_keyword? {v w : String} (hv : ∀ c ∈ v.toList, isBlank c = false)
    (hw : ∀ c ∈ w.toList, isBlank c = false) {t rest : Text}
    (h : keyword? v (w.toList ++ ' ' :: t) = some rest) : v = w := by
  have hall {u : Text} (hu : ∀ c ∈ u, isBlank c = false) : u.all (!isBlank ·) = true :=
    List.all_eq_true.2 fun c hc => by rw [hu c hc]; rfl
  obtain ⟨g, hne, hg, heq⟩ := eq_append_of_keyword? h
  obtain ⟨x, g, rfl⟩ := List.exists_cons_of_ne_nil hne
  have hx : isBlank x = true := (Bool.and_eq_true_iff.1 hg).1
  have hleft := (takeWhile_append_of_all (hall hw) (t := ' ' :: t) (by simp [notBefore])).1
  have hright := (takeWhile_append_of_all (hall hv) (t := x :: g ++ rest) (by simp [notBefore, hx])).1
  rw [heq, hright] at hleft
  exact String.toList_inj.1 hleft

/-- Of keywords without blanks, only the one that is written is found. -/
theorem solid_words {words : List String} (h : ∀ w ∈ words, w.toList ≠ [] ∧ w.toList.any isBlank = false) :
    ∀ w ∈ words, w.toList ≠ [] ∧ ∀ c ∈ w.toList, isBlank c = false :=
  fun w hw => ⟨(h w hw).1, not_of_any_eq_false (h w hw).2⟩

theorem findSome?_keyword? {words : List String} (hsolid : ∀ v ∈ words, ∀ c ∈ v.toList, isBlank c = false)
    {w : String} (hw : w ∈ words) {t : Text} (ht : notBefore isBlank t = true) :
    words.findSome? (keyword? · (w.toList ++ ' ' :: t)) = some t := by
  induction words with
  | nil => cases hw
  | cons v words ih =>
    rw [List.findSome?_cons]
    cases hv : keyword? v (w.toList ++ ' ' :: t) with
    | some rest =>
      obtain rfl := eq_of_keyword? (hsolid v List.mem_cons_self) (hsolid w hw) hv
      rw [← hv, keyword?_append ht]
    | none =>
      rcases List.mem_cons.1 hw with rfl | hw
      · rw [keyword?_append ht] at hv
        cases hv
      · exact ih (fun u hu => hsolid u (List.mem_cons_of_mem v hu)) hw

theorem flagBy_append {gap : Char → Bool} (hspace : gap ' ' = true) (word : String) {t : Text}
    (ht : notBefore gap t = true) : flagBy gap word (word.toList ++ ' ' :: t) = (true, t) := by
  rw [flagBy, keywordBy?_append hspace word ht]

theorem flagBy_of_head {gap : Char → Bool} {word : String} {t : Text} {c : Char}
    (hw : word.toList.head? = some c) (ht : t.head? ≠ some c) : flagBy gap word t = (false, t) := by
  rw [flagBy, keywordBy?_eq_none_of_head hw ht]

theorem flag_append (word : String) {t : Text} (ht : notBefore isBlank t = true) :
    flag word (word.toList ++ ' ' :: t) = (true, t) :=
  flagBy_append isBlank_space word ht

theorem flag_of_head {word : String} {t : Text} {c : Char} (hw : word.toList.head? = some c)
    (ht : t.head? ≠ some c) : flag word t = (false, t) :=
  flagBy_of_head hw ht

theorem flag_of_none {word : String} {t : Text} (h : keyword? word t = none) : flag word t = (false, t) := by
  unfold flag flagBy
  rw [show keywordBy? isBlank word t = none from h]

/-- A flag is the word with blanks behind it, or nothing. -/
theorem exists_append_flag (word : String) (t : Text) : ∃ e, t = e ++ (flag word t).2 ∧
    (e = [] ∨ ∃ g, blank g = true ∧ e = word.toList ++ g) := by
  cases h : keyword? word t with
  | none => exact ⟨[], by rw [flag_of_none h]; rfl, .inl rfl⟩
  | some rest =>
    have hflag : flag word t = (true, rest) := by
      unfold flag flagBy
      rw [show keywordBy? isBlank word t = some rest from h]
    obtain ⟨g, -, hg, ht⟩ := eq_append_of_keyword? h
    exact ⟨word.toList ++ g, by rw [hflag, ht, List.append_assoc], .inr ⟨g, hg, rfl⟩⟩

theorem ahead?_of_head? {c : Char} {t : Text} (h : ¬ t.head? ≠ some c) : ahead? c t = some t :=
  if_pos (Decidable.not_not.1 h)

theorem ahead?_eq_some {c : Char} {t u : Text} : ahead? c t = some u ↔ t = u ∧ t.head? = some c := by
  unfold ahead?
  split
  · next h => simp [h]
  · next h => simp [h]

/-! ## What is left is an end of the text -/

theorem suffix_of_after? {lead t rest : Text} (h : after? lead t = some rest) : rest <:+ t :=
  ⟨lead, (after?_eq_some.1 h).symm⟩

theorem suffix_of_run? {p : Char → Bool} {t r rest : Text} (h : run? p t = some (r, rest)) :
    rest <:+ t :=
  ⟨r, (eq_append_of_run? h).1.symm⟩

theorem suffix_of_name? {t name rest : Text} (h : name? t = some (name, rest)) : rest <:+ t :=
  ⟨name, (eq_append_of_nameOf? h).1.symm⟩

theorem suffix_of_skip1? {p : Char → Bool} {t rest : Text} (h : skip1? p t = some rest) :
    rest <:+ t := by
  obtain ⟨⟨r, u⟩, hrun, rfl⟩ := Option.map_eq_some_iff.1 h
  exact suffix_of_run? hrun

theorem suffix_of_keywordBy? {gap : Char → Bool} {word : String} {t rest : Text}
    (h : keywordBy? gap word t = some rest) : rest <:+ t := by
  obtain ⟨u, hu, hs⟩ := Option.bind_eq_some_iff.1 h
  exact (suffix_of_skip1? hs).trans (suffix_of_after? hu)

theorem suffix_skipKeywords (words : List String) (t : Text) : skipKeywords words t <:+ t := by
  fun_induction skipKeywords words t with
  | case1 t rest h ih =>
    obtain ⟨word, -, hword⟩ := List.exists_of_findSome?_eq_some h
    exact ih.trans (suffix_of_keywordBy? hword)
  | case2 t h => exact List.suffix_refl t

theorem skipKeywords_of_none {words : List String} {n : Text} (h : ∀ w ∈ words, keyword? w n = none) :
    skipKeywords words n = n := by
  have hnone : words.findSome? (keyword? · n) = none := List.findSome?_eq_none_iff.2 h
  rw [skipKeywords]
  split
  · next hsome => rw [hnone] at hsome; cases hsome
  · rfl

/-- A keyword has a blank behind it, so a text without blanks begins with none. -/
theorem keyword?_of_solid {word : String} {n : Text} (h : ∀ c ∈ n, isBlank c = false) :
    keyword? word n = none := by
  cases hword : keyword? word n with
  | none => rfl
  | some rest =>
    obtain ⟨g, hne, hg, hn⟩ := eq_append_of_keyword? hword
    obtain ⟨c, g, rfl⟩ := List.exists_cons_of_ne_nil hne
    have hc : isBlank c = false := h c (by rw [hn]; simp)
    rw [blank_cons, hc] at hg
    cases hg

theorem skipKeywords_of_solid {words : List String} {n : Text} (h : ∀ c ∈ n, isBlank c = false) :
    skipKeywords words n = n :=
  skipKeywords_of_none fun _ _ => keyword?_of_solid h

/-- Words as they are written in front of something, a space behind each. -/
def spaced (words : List String) : Text := words.flatMap fun w => w.toList ++ [' ']

theorem spaced_cons (w : String) (ws : List String) (t : Text) :
    spaced (w :: ws) ++ t = w.toList ++ ' ' :: (spaced ws ++ t) := by
  simp [spaced]

theorem spaced_cases (ws : List String) : spaced ws = [] ∨ ∃ u, spaced ws = u ++ [' '] := by
  induction ws with
  | nil => exact .inl rfl
  | cons w ws ih =>
    have hcons : spaced (w :: ws) = w.toList ++ ' ' :: spaced ws := by simpa using spaced_cons w ws []
    rw [hcons]
    rcases ih with hnil | ⟨u, hu⟩
    · exact .inr ⟨w.toList, by rw [hnil]⟩
    · exact .inr ⟨w.toList ++ ' ' :: u, by rw [hu, List.append_assoc]; rfl⟩

theorem notBefore_spaced {ws : List String} (hws : ∀ w ∈ ws, w.toList ≠ [] ∧ ∀ c ∈ w.toList, isBlank c = false)
    {t : Text} (ht : notBefore isBlank t = true) : notBefore isBlank (spaced ws ++ t) = true := by
  cases ws with
  | nil => exact ht
  | cons w ws =>
    obtain ⟨hne, hsolid⟩ := hws w List.mem_cons_self
    obtain ⟨c, u, hcu⟩ := List.exists_cons_of_ne_nil hne
    rw [spaced_cons, hcu, List.cons_append, notBefore, List.head?_cons, Option.any_some,
      hsolid c (by simp [hcu])]
    rfl

/-- Keywords in a row are all skipped, up to a text that begins with none. -/
theorem skipKeywords_spaced {words ms : List String}
    (hsolid : ∀ v ∈ words, v.toList ≠ [] ∧ ∀ c ∈ v.toList, isBlank c = false) (hms : ∀ m ∈ ms, m ∈ words)
    {n : Text} (hhead : notBefore isBlank n = true) (hn : skipKeywords words n = n) :
    skipKeywords words (spaced ms ++ n) = n := by
  induction ms with
  | nil => exact hn
  | cons m ms ih =>
    have hrest : ∀ v ∈ ms, v ∈ words := fun v hv => hms v (List.mem_cons_of_mem m hv)
    have hfound := findSome?_keyword? (fun v hv => (hsolid v hv).2) (hms m List.mem_cons_self)
      (notBefore_spaced (fun v hv => hsolid v (hrest v hv)) hhead)
    rw [spaced_cons, skipKeywords]
    split
    · next rest hsome =>
      rw [hfound] at hsome
      rw [← Option.some.inj hsome, ih hrest]
    · next hnone =>
      rw [hfound] at hnone
      cases hnone

/-- Keywords that are skipped take no character that is neither a blank nor one of theirs. -/
theorem mem_skipKeywords {words : List String} {c : Char} {t : Text} (hc : isBlank c = false)
    (hwords : ∀ w ∈ words, c ∉ w.toList) (h : c ∈ t) : c ∈ skipKeywords words t := by
  fun_induction skipKeywords words t with
  | case1 t rest hsome ih =>
    obtain ⟨word, hword, hkeyword⟩ := List.exists_of_findSome?_eq_some hsome
    obtain ⟨g, -, hg, rfl⟩ := eq_append_of_keyword? hkeyword
    have hgap : c ∉ g := not_mem_of_all hg hc
    exact ih (by simpa [hwords word hword, hgap] using h)
  | case2 t hnone => exact h

theorem suffix_flagBy (gap : Char → Bool) (word : String) (t : Text) :
    (flagBy gap word t).2 <:+ t := by
  rw [flagBy]
  split
  · next h => exact suffix_of_keywordBy? h
  · exact List.suffix_refl t

theorem suffix_flag (word : String) (t : Text) : (flag word t).2 <:+ t := suffix_flagBy isBlank word t

theorem suffix_skipKeyword (words : List String) (t : Text) : skipKeyword words t <:+ t := by
  rw [skipKeyword]
  cases h : words.findSome? (keyword? · t) with
  | none => exact List.suffix_refl t
  | some rest =>
    obtain ⟨word, -, hword⟩ := List.exists_of_findSome?_eq_some h
    exact suffix_of_keywordBy? hword

theorem suffix_getD {cut : Option Text} {t : Text} (h : ∀ rest, cut = some rest → rest <:+ t) :
    cut.getD t <:+ t := by
  cases cut with
  | none => exact List.suffix_refl t
  | some rest => exact h rest rfl

theorem suffix_of_dollarName? {t name rest : Text} (h : dollarName? t = some (name, rest)) :
    rest <:+ t :=
  ⟨name, (eq_append_of_nameOf? h).1.symm⟩

theorem suffix_of_wholeWord? {word : String} {t rest : Text} (h : wholeWord? word t = some rest) :
    rest <:+ t :=
  suffix_of_after? (Option.filter_eq_some_iff.1 h).1

theorem suffix_of_ahead? {c : Char} {t rest : Text} (h : ahead? c t = some rest) : rest <:+ t :=
  (ahead?_eq_some.1 h).1 ▸ List.suffix_refl t

theorem suffix_trimStart (t : Text) : trimStart t <:+ t := List.dropWhile_suffix _

/-! ## Squeezed texts -/

theorem takeWhile_squeeze {p : Char → Bool} (hp : ∀ c, isBlank c = true → p c = false) (t : Text) :
    (squeeze t).takeWhile p = t.takeWhile p ∧
      (squeeze t).dropWhile p = squeeze (t.dropWhile p) := by
  induction t with
  | nil => exact ⟨rfl, rfl⟩
  | cons c t ih =>
    cases hc : isBlank c with
    | true => simp [squeeze_cons_of_blank hc, hp c hc, hp ' ' isBlank_space]
    | false =>
      rw [squeeze_cons_of_not hc]
      cases h : p c <;> simp [h, ih, squeeze_cons_of_not hc]

theorem head?_any_squeeze {p : Char → Bool} (hp : ∀ c, isBlank c = true → p c = false) (t : Text) :
    (squeeze t).head?.any p = t.head?.any p := by
  cases t with
  | nil => rfl
  | cons c t =>
    cases hc : isBlank c with
    | true => simp [squeeze_cons_of_blank hc, hp c hc, hp ' ' isBlank_space]
    | false => rw [squeeze_cons_of_not hc]; rfl

theorem run?_squeeze {p : Char → Bool} (hp : ∀ c, isBlank c = true → p c = false) (t : Text) :
    run? p (squeeze t) = (run? p t).map fun m => (m.1, squeeze m.2) := by
  obtain ⟨htake, hdrop⟩ := takeWhile_squeeze hp t
  rw [run?_eq, run?_eq, head?_any_squeeze hp, htake, hdrop]
  split <;> rfl

theorem word?_squeeze (t : Text) :
    word? (squeeze t) = (word? t).map fun m => (m.1, squeeze m.2) :=
  run?_squeeze (fun _ => isWord_of_blank) t

theorem skip1?_isBlank_squeeze (t : Text) :
    skip1? isBlank (squeeze t) = (skip1? isBlank t).map squeeze := by
  have htrim := trimStart_squeeze t
  rw [trimStart, trimStart] at htrim
  rw [skip1?_eq, skip1?_eq, head?_squeeze, htrim]
  split <;> rfl

theorem keyword?_squeeze {word : String} (hw : word.toList.any isBlank = false) (t : Text) :
    keyword? word (squeeze t) = (keyword? word t).map squeeze := by
  rw [keyword?, keywordBy?, after?_squeeze hw, keyword?, keywordBy?]
  cases after? word.toList t with
  | none => rfl
  | some u => exact skip1?_isBlank_squeeze u

theorem flag_squeeze {word : String} (hw : word.toList.any isBlank = false) (t : Text) :
    flag word (squeeze t) = ((flag word t).1, squeeze (flag word t).2) := by
  have h := keyword?_squeeze hw t
  rw [keyword?, keyword?] at h
  rw [flag, flagBy, h, flag, flagBy]
  cases keywordBy? isBlank word t <;> rfl

theorem notBefore_squeeze {p : Char → Bool} (hp : ∀ c, isBlank c = true → p c = false) (t : Text) :
    notBefore p (squeeze t) = notBefore p t := by
  rw [notBefore, head?_any_squeeze hp, notBefore]

theorem wholeWord?_squeeze {word : String} (hw : word.toList.any isBlank = false) (t : Text) :
    wholeWord? word (squeeze t) = (wholeWord? word t).map squeeze := by
  rw [wholeWord?, after?_squeeze hw, wholeWord?]
  cases after? word.toList t with
  | none => rfl
  | some u =>
    simp only [Option.map_some, Option.filter_some, notBefore_squeeze fun _ => isWord_of_blank]
    split <;> rfl

theorem char?_squeeze {c : Char} (hc : isBlank c = false) (t : Text) :
    char? c (squeeze t) = (char? c t).map squeeze :=
  after?_squeeze (by simpa using hc) t

end Synopsis.Text
