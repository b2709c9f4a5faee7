import Synopsis.Nesting.Piece
import Synopsis.Proofs.Nesting.Span

/-!
# Splitting a list and joining it again

Reading a parameter list splits it at its top-level commas; writing one joins the pieces with a comma
and a space. Results:

1. `pieces_collapse`: the pieces of a collapsed text are the collapsed pieces of the text.
2. `row_pieces`: the pieces of any text form a `Row`; no piece has a top-level comma, and only the
   last may leave brackets open.
3. `pieces_join`: a row that is joined is split into the same row.
4. `filter_flatten_pieces`, `filter_join`: neither step loses or moves a character other than blanks
   and commas.
-/

namespace Synopsis.Brackets

open Text

/-- The brackets still open after a text that follows `prev` with some already open. -/
def openAfter (b : Brackets) : (opened : List Char) → (prev : Option Char) → Text → List Char
  | opened, _, [] => opened
  | opened, prev, c :: cs => b.openAfter (b.step opened prev c) (some c) cs

/-- The stretches between top-level commas of a text that follows `prev` with some brackets already
    open. -/
def stretchesFrom (b : Brackets) (opened : List Char) (prev : Option Char) (t : Text) : List Text :=
  ((b.marks opened prev t).splitOnP fun m => m.2 && m.1 == ',').map fun s => s.map Prod.fst

/-- Brackets whose openers and closers are the usual ones. -/
def Usual (b : Brackets) : Prop := ∀ p ∈ b.pairs, p ∈ Brackets.all.pairs

instance (b : Brackets) : Decidable b.Usual := by
  unfold Usual
  infer_instance

/-- A piece as splitting gives it: trimmed, not empty, and without a top-level comma. -/
structure IsPiece (b : Brackets) (p : Text) : Prop where
  ne_nil : p ≠ []
  trimmed : trim p = p
  solid : b.stretchesFrom [] none p = [p]

/-- Pieces that can stand side by side: all but the last close what they open. -/
structure Row (b : Brackets) (ps : List Text) : Prop where
  piece : ∀ p ∈ ps, b.IsPiece p
  closed : ∀ p ∈ ps.dropLast, b.openAfter [] none p = []

theorem usual_all : all.Usual := by decide

theorem usual_noAngle : noAngle.Usual := by decide

theorem usual_noCurly : noCurly.Usual := by decide

/-! ## One character -/

/-- A character after which a `>` is not the head of an arrow. -/
def Calm (prev : Option Char) : Prop := prev ≠ some '=' ∧ prev ≠ some '-'

theorem isArrowHead_of_calm {prev : Option Char} (h : Calm prev) (c : Char) :
    isArrowHead prev c = false := by
  simp [isArrowHead, h.1, h.2]

theorem calm_none : Calm none := by
  constructor <;> simp

theorem calm_comma : Calm (some ',') := by
  constructor <;> decide

theorem calm_of_blank {c : Char} (h : isBlank c = true) : Calm (some c) := by
  have h1 : c ≠ '=' := ne_of_blank h (by decide)
  have h2 : c ≠ '-' := ne_of_blank h (by decide)
  constructor <;> simpa

section Step

variable {b : Brackets}

theorem step_of_calm {prev : Option Char} (h : Calm prev) (opened : List Char) (c : Char) :
    b.step opened prev c = b.step opened none c := by
  simp only [step, closesHere, isArrowHead_of_calm h, isArrowHead_of_calm calm_none]

theorem opens_of_all (hb : b.Usual) {c : Char} (h : all.opens c = false) : b.opens c = false := by
  simp only [opens, List.any_eq_false] at h ⊢
  exact fun p hp => h p (hb p hp)

theorem closes_of_all (hb : b.Usual) {c : Char} (h : all.closes c = false) :
    b.closes c = false := by
  simp only [closes, List.any_eq_false] at h ⊢
  exact fun p hp => h p (hb p hp)

theorem not_blank_of_mem_all : ∀ p ∈ all.pairs, isBlank p.1 = false ∧ isBlank p.2 = false := by
  decide

theorem opens_of_blank (hb : b.Usual) {c : Char} (h : isBlank c = true) : b.opens c = false := by
  refine opens_of_all hb (List.any_eq_false.2 fun p hp he => ?_)
  obtain rfl : p.1 = c := by simpa using he
  simp [(not_blank_of_mem_all p hp).1] at h

theorem closes_of_blank (hb : b.Usual) {c : Char} (h : isBlank c = true) : b.closes c = false := by
  refine closes_of_all hb (List.any_eq_false.2 fun p hp he => ?_)
  obtain rfl : p.2 = c := by simpa using he
  simp [(not_blank_of_mem_all p hp).2] at h

/-- A character that is no bracket changes nothing. -/
theorem step_of_other {c : Char} (ho : b.opens c = false) (hc : b.closes c = false)
    (opened : List Char) (prev : Option Char) : b.step opened prev c = opened := by
  simp [step, closesHere, ho, hc]

theorem step_of_blank (hb : b.Usual) {c : Char} (h : isBlank c = true) (opened : List Char)
    (prev : Option Char) : b.step opened prev c = opened :=
  step_of_other (opens_of_blank hb h) (closes_of_blank hb h) opened prev

theorem step_comma (hb : b.Usual) (opened : List Char) (prev : Option Char) :
    b.step opened prev ',' = opened :=
  step_of_other (opens_of_all hb (by decide)) (closes_of_all hb (by decide)) opened prev

end Step

/-! ## Reading on -/

section Reading

variable {b : Brackets}

theorem openAfter_append (opened : List Char) (prev : Option Char) (s t : Text) :
    b.openAfter opened prev (s ++ t) =
      b.openAfter (b.openAfter opened prev s) (s.getLast?.or prev) t := by
  induction s generalizing opened prev with
  | nil => rfl
  | cons c s ih =>
    rw [List.cons_append, openAfter, ih, openAfter, List.getLast?_cons]
    cases s.getLast? <;> rfl

theorem openAfter_of_calm {prev : Option Char} (h : Calm prev) (opened : List Char) (t : Text) :
    b.openAfter opened prev t = b.openAfter opened none t := by
  cases t with
  | nil => rfl
  | cons c t => rw [openAfter, openAfter, step_of_calm h]

theorem stretchesFrom_nil (opened : List Char) (prev : Option Char) :
    b.stretchesFrom opened prev [] = [[]] := rfl

theorem stretchesFrom_cons (opened : List Char) (prev : Option Char) (c : Char) (t : Text) :
    b.stretchesFrom opened prev (c :: t) =
      if (b.step opened prev c).isEmpty && c == ',' then
        [] :: b.stretchesFrom (b.step opened prev c) (some c) t
      else (b.stretchesFrom (b.step opened prev c) (some c) t).modifyHead (c :: ·) := by
  rw [stretchesFrom, marks, List.splitOnP_cons_eq_if_modifyHead]
  split
  · rfl
  · obtain ⟨h, hs, hh⟩ := List.exists_cons_of_ne_nil (List.splitOnP_ne_nil
      (fun m : Char × Bool => m.2 && m.1 == ',') (b.marks (b.step opened prev c) (some c) t))
    simp [stretchesFrom, hh]

theorem stretchesFrom_of_calm {prev : Option Char} (h : Calm prev) (opened : List Char)
    (t : Text) : b.stretchesFrom opened prev t = b.stretchesFrom opened none t := by
  cases t with
  | nil => rfl
  | cons c t => rw [stretchesFrom_cons, stretchesFrom_cons, step_of_calm h]

theorem stretchesFrom_ne_nil (opened : List Char) (prev : Option Char) (t : Text) :
    b.stretchesFrom opened prev t ≠ [] := by
  simp [stretchesFrom]

theorem stretchesFrom_cons_of_ne {c : Char} (hc : c ≠ ',') (opened : List Char)
    (prev : Option Char) (t : Text) : b.stretchesFrom opened prev (c :: t) =
      (b.stretchesFrom (b.step opened prev c) (some c) t).modifyHead (c :: ·) := by
  rw [stretchesFrom_cons, if_neg (by simp [hc])]

/-- A stretch that closes what is open ends at a comma, and the list goes on as from its start. -/
theorem stretchesFrom_append_comma (hb : b.Usual) {opened : List Char} {prev : Option Char}
    {s : Text} (hsolid : b.stretchesFrom opened prev s = [s])
    (hclosed : b.openAfter opened prev s = []) (t : Text) :
    b.stretchesFrom opened prev (s ++ ',' :: t) = s :: b.stretchesFrom [] none t := by
  induction s generalizing opened prev with
  | nil =>
    obtain rfl : opened = [] := hclosed
    rw [List.nil_append, stretchesFrom_cons, step_comma hb, if_pos (by decide),
      stretchesFrom_of_calm calm_comma]
  | cons c s ih =>
    rw [stretchesFrom_cons] at hsolid
    split at hsolid
    · cases hsolid
    · next hsep =>
      obtain ⟨h, hs, hh⟩ := List.exists_cons_of_ne_nil
        (stretchesFrom_ne_nil (b := b) (b.step opened prev c) (some c) s)
      rw [hh, List.modifyHead_cons] at hsolid
      obtain ⟨hc, rfl⟩ := List.cons.inj hsolid
      obtain ⟨-, rfl⟩ := List.cons.inj hc
      rw [List.cons_append, stretchesFrom_cons, if_neg hsep, ih hh hclosed]
      rfl

/-- A text is one stretch, or its first stretch ends at a comma where nothing is open. -/
theorem stretchesFrom_cases (hb : b.Usual) (opened : List Char) (prev : Option Char) (t : Text) :
    b.stretchesFrom opened prev t = [t] ∨
      ∃ s r, t = s ++ ',' :: r ∧ b.openAfter opened prev s = [] ∧
        b.stretchesFrom opened prev s = [s] ∧
        b.stretchesFrom opened prev t = s :: b.stretchesFrom [] none r := by
  induction t generalizing opened prev with
  | nil => exact .inl rfl
  | cons c t ih =>
    by_cases hsep : ((b.step opened prev c).isEmpty && c == ',') = true
    · obtain ⟨hopen, hc⟩ := Bool.and_eq_true_iff.1 hsep
      obtain rfl : c = ',' := by simpa using hc
      rw [step_comma hb] at hopen
      have hopened : opened = [] := List.isEmpty_iff.1 hopen
      refine .inr ⟨[], t, rfl, hopened, rfl, ?_⟩
      rw [stretchesFrom_cons, if_pos hsep, step_comma hb, hopened, stretchesFrom_of_calm calm_comma]
    · rcases ih (b.step opened prev c) (some c) with hone | ⟨s, r, rfl, hclosed, hsolid, hcut⟩
      · exact .inl (by rw [stretchesFrom_cons, if_neg hsep, hone]; rfl)
      · refine .inr ⟨c :: s, r, rfl, hclosed, ?_, ?_⟩
        · rw [stretchesFrom_cons, if_neg hsep, hsolid]
          rfl
        · rw [stretchesFrom_cons, if_neg hsep, hcut]
          rfl

/-- The first stretch starts with a blank exactly when the text does. -/
theorem exists_stretchesFrom (opened : List Char) (prev : Option Char) (t : Text) :
    ∃ s ss, b.stretchesFrom opened prev t = s :: ss ∧
      s.head?.any isBlank = t.head?.any isBlank := by
  cases t with
  | nil => exact ⟨[], [], rfl, rfl⟩
  | cons c t =>
    rw [stretchesFrom_cons]
    split
    · next hsep =>
      obtain rfl : c = ',' := by simpa using (Bool.and_eq_true_iff.1 hsep).2
      exact ⟨[], _, rfl, rfl⟩
    · obtain ⟨h, hs, hh⟩ := List.exists_cons_of_ne_nil
        (stretchesFrom_ne_nil (b := b) (b.step opened prev c) (some c) t)
      exact ⟨c :: h, hs, by rw [hh, List.modifyHead_cons], rfl⟩

theorem stretchesFrom_cons_of_blank (hb : b.Usual) {c : Char} (h : isBlank c = true)
    (opened : List Char) (prev : Option Char) (t : Text) :
    b.stretchesFrom opened prev (c :: t) =
      (b.stretchesFrom opened none t).modifyHead (c :: ·) := by
  have hc : c ≠ ',' := ne_of_blank h (by decide)
  rw [stretchesFrom_cons_of_ne hc, step_of_blank hb h, stretchesFrom_of_calm (calm_of_blank h)]

/-- Blanks at the end of a text belong to its last stretch. -/
theorem map_trimEnd_stretchesFrom (hb : b.Usual) {g : Text} (hg : blank g = true)
    (opened : List Char) (prev : Option Char) (t : Text) :
    (b.stretchesFrom opened prev (t ++ g)).map trimEnd =
      (b.stretchesFrom opened prev t).map trimEnd := by
  -- Blanks open nothing and separate nothing, so all of `g` ends up at the end of the last stretch.
  induction t generalizing opened prev with
  | nil =>
    induction g generalizing prev with
    | nil => rfl
    | cons c g ih =>
      obtain ⟨hc, hg⟩ := Bool.and_eq_true_iff.1 hg
      have ih := ih hg none
      obtain ⟨s, ss, hs, -⟩ := exists_stretchesFrom (b := b) opened none g
      rw [List.nil_append] at ih ⊢
      rw [stretchesFrom_cons_of_blank hb hc, hs]
      rw [hs, stretchesFrom_nil, List.map_cons, List.map_cons] at ih
      obtain ⟨hs', hss⟩ := List.cons.inj ih
      have hce : trimEnd (c :: s) = trimEnd [] := by
        rw [trimEnd_cons, hs']
        exact trimEnd_append_of_blank (g := [c]) (by simpa using hc) []
      rw [List.modifyHead_cons, List.map_cons, hce, hss]
      rfl
  | cons c t ih =>
    have ih := ih (b.step opened prev c) (some c)
    obtain ⟨s, ss, hs, -⟩ :=
      exists_stretchesFrom (b := b) (b.step opened prev c) (some c) (t ++ g)
    obtain ⟨s', ss', hs', -⟩ := exists_stretchesFrom (b := b) (b.step opened prev c) (some c) t
    rw [List.cons_append, stretchesFrom_cons, stretchesFrom_cons]
    split
    · rw [List.map_cons, ih]
      rfl
    · rw [hs, hs'] at ih ⊢
      obtain ⟨hh, hss⟩ := List.cons.inj ih
      rw [List.modifyHead_cons, List.modifyHead_cons, List.map_cons, List.map_cons, hss,
        trimEnd_cons, hh, ← trimEnd_cons]

/-- Squeezing a text squeezes its stretches. -/
theorem stretchesFrom_squeeze (hb : b.Usual) (opened : List Char) (prev : Option Char) (t : Text) :
    b.stretchesFrom opened prev (squeeze t) = (b.stretchesFrom opened prev t).map squeeze := by
  fun_induction squeeze t generalizing opened prev with
  | case1 => rfl
  | case2 c cs hc hd ih =>
    cases cs with
    | nil => simp at hd
    | cons d ds =>
      have hd : isBlank d = true := by simpa using hd
      -- the second blank hides what stands before it, so the first may be dropped
      obtain ⟨s, ss, hs, -⟩ := exists_stretchesFrom (b := b) opened none ds
      rw [ih, stretchesFrom_cons_of_blank hb hc, stretchesFrom_cons_of_blank hb hd,
        stretchesFrom_cons_of_blank hb hd, hs]
      simp [squeeze, hc, hd]
  | case3 c cs hc hd ih =>
    obtain ⟨s, ss, hs, hhead⟩ := exists_stretchesFrom (b := b) opened none cs
    rw [stretchesFrom_cons_of_blank hb isBlank_space, ih, stretchesFrom_cons_of_blank hb hc, hs]
    have hd : s.head?.any isBlank = false := by rw [hhead]; simpa using hd
    simp [squeeze, hc, hd]
  | case4 c cs hc ih =>
    have hc : isBlank c = false := by simpa using hc
    obtain ⟨s, ss, hs, -⟩ :=
      exists_stretchesFrom (b := b) (b.step opened prev c) (some c) cs
    rw [stretchesFrom_cons, ih, stretchesFrom_cons, hs]
    split
    · rfl
    · simp [squeeze_cons_of_not hc]

theorem openAfter_squeeze (hb : b.Usual) (opened : List Char) (prev : Option Char) (t : Text) :
    b.openAfter opened prev (squeeze t) = b.openAfter opened prev t := by
  fun_induction squeeze t generalizing opened prev with
  | case1 => rfl
  | case2 c cs hc hd ih =>
    cases cs with
    | nil => simp at hd
    | cons d ds =>
      have hd : isBlank d = true := by simpa using hd
      rw [ih, openAfter, openAfter, openAfter, step_of_blank hb hc, step_of_blank hb hd,
        step_of_blank hb hd]
  | case3 c cs hc hd ih =>
    rw [openAfter, openAfter, ih, step_of_blank hb hc, step_of_blank hb isBlank_space,
      openAfter_of_calm (calm_of_blank hc), openAfter_of_calm (calm_of_blank isBlank_space)]
  | case4 c cs hc ih => rw [openAfter, openAfter, ih]

end Reading

/-! ## Pieces -/

section Pieces

variable {b : Brackets}

theorem pieces_eq (t : Text) :
    b.pieces t = ((b.stretchesFrom [] none t).map trim).filter (!·.isEmpty) := rfl

theorem pieces_of_solid {t : Text} (h : b.stretchesFrom [] none t = [t]) :
    b.pieces t = if blank t then [] else [trim t] := by
  rw [pieces_eq, h]
  cases hb : blank t with
  | true => simp [trim_eq_nil_iff.2 hb]
  | false =>
    have hne : trim t ≠ [] := fun h => by simp [trim_eq_nil_iff.1 h] at hb
    simp [hne]

theorem pieces_append_comma (hb : b.Usual) {s : Text} (hsolid : b.stretchesFrom [] none s = [s])
    (hclosed : b.openAfter [] none s = []) (t : Text) :
    b.pieces (s ++ ',' :: t) = b.pieces s ++ b.pieces t := by
  rw [pieces_eq, stretchesFrom_append_comma hb hsolid hclosed, pieces_eq, hsolid, pieces_eq,
    ← List.filter_append]
  rfl

/-- Splitting follows the stretches: the last one, or a closed one and all after its comma. -/
theorem pieces_cases (hb : b.Usual) (t : Text) :
    b.stretchesFrom [] none t = [t] ∨
      ∃ s r, t = s ++ ',' :: r ∧ b.openAfter [] none s = [] ∧
        b.stretchesFrom [] none s = [s] ∧ b.pieces t = b.pieces s ++ b.pieces r := by
  rcases stretchesFrom_cases hb [] none t with hone | ⟨s, r, rfl, hclosed, hsolid, -⟩
  · exact .inl hone
  · exact .inr ⟨s, r, rfl, hclosed, hsolid, pieces_append_comma hb hsolid hclosed r⟩

theorem pieces_cons_of_blank (hb : b.Usual) {c : Char} (h : isBlank c = true) (t : Text) :
    b.pieces (c :: t) = b.pieces t := by
  obtain ⟨s, ss, hs, -⟩ := exists_stretchesFrom (b := b) [] none t
  have htrim : trim (c :: s) = trim s := trim_cons_of_blank h s
  rw [pieces_eq, stretchesFrom_cons_of_blank hb h, pieces_eq, hs]
  simp [htrim]

theorem pieces_append_of_blank (hb : b.Usual) {g : Text} (hg : blank g = true) (t : Text) :
    b.pieces (t ++ g) = b.pieces t := by
  have htrim : trim = trim ∘ trimEnd := funext fun t => (trim_trimEnd t).symm
  rw [pieces_eq, pieces_eq, htrim, ← List.map_map, map_trimEnd_stretchesFrom hb hg, List.map_map]

theorem pieces_blank_append (hb : b.Usual) {g : Text} (hg : blank g = true) (t : Text) :
    b.pieces (g ++ t) = b.pieces t := by
  induction g with
  | nil => rfl
  | cons c g ih =>
    obtain ⟨hc, hg⟩ := Bool.and_eq_true_iff.1 hg
    rw [List.cons_append, pieces_cons_of_blank hb hc, ih hg]

theorem pieces_trim (hb : b.Usual) (t : Text) : b.pieces (trim t) = b.pieces t := by
  obtain ⟨g, g', hg, hg', ht⟩ := exists_trim t
  conv => rhs; rw [ht, pieces_append_of_blank hb hg', pieces_blank_append hb hg]

theorem pieces_squeeze (hb : b.Usual) (t : Text) :
    b.pieces (squeeze t) = (b.pieces t).map collapse := by
  have htrim : trim ∘ squeeze = collapse := funext fun t => (collapse_eq_trim_squeeze t).symm
  have hcollapse : collapse ∘ trim = collapse := funext collapse_trim
  have hempty : (fun p : Text => !p.isEmpty) ∘ collapse = fun p => !(trim p).isEmpty := by
    funext p
    have hiff : collapse p = [] ↔ trim p = [] := by rw [collapse_eq_nil_iff, trim_eq_nil_iff]
    rw [Function.comp_apply, Bool.eq_iff_iff]
    simp [hiff]
  rw [pieces_eq, stretchesFrom_squeeze hb, pieces_eq, List.map_map, htrim, List.filter_map,
    List.filter_map, List.map_map, hcollapse, hempty]
  rfl

/-- The pieces of a collapsed text are the collapsed pieces of the text. -/
theorem pieces_collapse (hb : b.Usual) (t : Text) :
    b.pieces (collapse t) = (b.pieces t).map collapse := by
  rw [collapse_eq_squeeze_trim, pieces_squeeze hb, pieces_trim hb]

/-! ## Rows -/

theorem solid_of_length (hb : b.Usual) {opened : List Char} {prev : Option Char} {t : Text}
    (h : (b.stretchesFrom opened prev t).length = 1) : b.stretchesFrom opened prev t = [t] := by
  rcases stretchesFrom_cases hb opened prev t with hone | ⟨s, r, rfl, -, -, hcut⟩
  · exact hone
  · rw [hcut, List.length_cons, Nat.add_eq_right, List.length_eq_zero_iff] at h
    exact absurd h (stretchesFrom_ne_nil [] none r)

/-- A text without commas adds to the last stretch before it. -/
theorem length_stretchesFrom_append {s : Text} (hs : ',' ∉ s) (opened : List Char) (prev : Option Char)
    (t : Text) :
    (b.stretchesFrom opened prev (t ++ s)).length = (b.stretchesFrom opened prev t).length := by
  induction t generalizing opened prev with
  | nil =>
    rw [List.nil_append, stretchesFrom_nil]
    induction s generalizing opened prev with
    | nil => rfl
    | cons c s ih =>
      simp only [List.mem_cons, not_or] at hs
      rw [stretchesFrom_cons_of_ne (Ne.symm hs.1), List.length_modifyHead, ih hs.2]
  | cons c t ih =>
    rw [List.cons_append, stretchesFrom_cons, stretchesFrom_cons]
    split
    · rw [List.length_cons, ih, List.length_cons]
    · rw [List.length_modifyHead, ih, List.length_modifyHead]

/-- A text without commas and brackets adds to the first stretch behind it. -/
theorem length_stretchesFrom_plain {s : Text}
    (hs : s.all (fun c => c != ',' && !b.opens c && !b.closes c) = true) (opened : List Char)
    (prev : Option Char) (t : Text) : (b.stretchesFrom opened prev (s ++ t)).length =
      (b.stretchesFrom opened (s.getLast?.or prev) t).length := by
  induction s generalizing prev with
  | nil => rfl
  | cons c s ih =>
    obtain ⟨hfirst, hs⟩ := Bool.and_eq_true_iff.1 hs
    obtain ⟨⟨hc, ho⟩, hcl⟩ : (c ≠ ',' ∧ b.opens c = false) ∧ b.closes c = false := by simpa using hfirst
    rw [List.cons_append, stretchesFrom_cons_of_ne hc, List.length_modifyHead, step_of_other ho hcl,
      ih hs, List.getLast?_cons]
    cases s.getLast? <;> rfl

/-- A text without brackets leaves open what was open. -/
theorem openAfter_plain {s : Text} (hs : s.all (fun c => !b.opens c && !b.closes c) = true)
    (opened : List Char) (prev : Option Char) : b.openAfter opened prev s = opened := by
  induction s generalizing prev with
  | nil => rfl
  | cons c s ih =>
    obtain ⟨hfirst, hs⟩ := Bool.and_eq_true_iff.1 hs
    obtain ⟨ho, hc⟩ : b.opens c = false ∧ b.closes c = false := by simpa using hfirst
    rw [openAfter, step_of_other ho hc, ih hs]

theorem solid_trim (hb : b.Usual) {s : Text} (h : b.stretchesFrom [] none s = [s]) :
    b.stretchesFrom [] none (trim s) = [trim s] := by
  obtain ⟨g, g', hg, hg', ht⟩ := exists_trim s
  refine solid_of_length hb ?_
  have hend := congrArg List.length (map_trimEnd_stretchesFrom hb hg' [] none (g ++ trim s))
  rw [← ht, h, List.length_map, List.length_map] at hend
  clear ht
  induction g with
  | nil => exact hend.symm
  | cons c g ih =>
    obtain ⟨hc, hg⟩ := Bool.and_eq_true_iff.1 hg
    rw [List.cons_append, stretchesFrom_cons_of_blank hb hc, List.length_modifyHead] at hend
    exact ih hg hend

theorem openAfter_of_blank (hb : b.Usual) {g : Text} (hg : blank g = true) (opened : List Char)
    (prev : Option Char) : b.openAfter opened prev g = opened := by
  induction g generalizing prev with
  | nil => rfl
  | cons c g ih =>
    obtain ⟨hc, hg⟩ := Bool.and_eq_true_iff.1 hg
    rw [openAfter, step_of_blank hb hc, ih hg]

theorem calm_getLast? {g : Text} (hg : blank g = true) : Calm (g.getLast?.or none) := by
  rw [Option.or_none]
  cases h : g.getLast? with
  | none => exact calm_none
  | some c => exact calm_of_blank (List.all_eq_true.1 hg c (List.mem_of_getLast? h))

theorem openAfter_trim (hb : b.Usual) (s : Text) :
    b.openAfter [] none (trim s) = b.openAfter [] none s := by
  obtain ⟨g, g', hg, hg', ht⟩ := exists_trim s
  conv => rhs; rw [ht, openAfter_append, openAfter_of_blank hb hg', openAfter_append,
    openAfter_of_blank hb hg, openAfter_of_calm (calm_getLast? hg)]

theorem openAfter_collapse (hb : b.Usual) (s : Text) :
    b.openAfter [] none (collapse s) = b.openAfter [] none s := by
  rw [collapse_eq_squeeze_trim, openAfter_squeeze hb, openAfter_trim hb]

theorem isPiece_trim (hb : b.Usual) {s : Text} (hsolid : b.stretchesFrom [] none s = [s])
    (hs : blank s = false) : b.IsPiece (trim s) where
  ne_nil h := by simp [trim_eq_nil_iff.1 h] at hs
  trimmed := trim_trim s
  solid := solid_trim hb hsolid

theorem IsPiece.collapse (hb : b.Usual) {p : Text} (h : b.IsPiece p) : b.IsPiece (collapse p) where
  ne_nil he := h.ne_nil (h.trimmed ▸ trim_eq_nil_iff.2 (collapse_eq_nil_iff.1 he))
  trimmed := trim_collapse p
  solid := by rw [collapse_eq_squeeze h.trimmed, stretchesFrom_squeeze hb, h.solid]; rfl

theorem row_nil : b.Row [] := by
  constructor <;> simp

theorem Row.cons {p : Text} {ps : List Text} (hp : b.IsPiece p)
    (hclosed : ps ≠ [] → b.openAfter [] none p = []) (h : b.Row ps) : b.Row (p :: ps) := by
  constructor
  · intro q hq
    rcases List.mem_cons.1 hq with rfl | hq
    · exact hp
    · exact h.piece q hq
  · intro q hq
    cases ps with
    | nil => cases hq
    | cons r ps =>
      rcases List.mem_cons.1 hq with rfl | hq
      · exact hclosed (by simp)
      · exact h.closed q hq

/-- The pieces of a text can stand side by side. -/
theorem row_pieces (hb : b.Usual) (t : Text) : b.Row (b.pieces t) := by
  rcases pieces_cases hb t with hone | ⟨s, r, ht, hclosed, hsolid, hcut⟩
  · rw [pieces_of_solid hone]
    split
    · exact row_nil
    · next hne => exact row_nil.cons (isPiece_trim hb hone (by simpa using hne)) (by simp)
  · have hlt : r.length < t.length := by
      simp only [ht, List.length_append, List.length_cons]
      omega
    have ih := row_pieces hb r
    rw [hcut, pieces_of_solid hsolid]
    split
    · exact ih
    · next hne =>
      exact ih.cons (isPiece_trim hb hsolid (by simpa using hne))
        fun _ => by rw [openAfter_trim hb, hclosed]
termination_by t.length

theorem Row.map_collapse (hb : b.Usual) {ps : List Text} (h : b.Row ps) :
    b.Row (ps.map collapse) := by
  constructor
  · intro q hq
    obtain ⟨p, hp, rfl⟩ := List.mem_map.1 hq
    exact (h.piece p hp).collapse hb
  · intro q hq
    rw [← List.map_dropLast] at hq
    obtain ⟨p, hp, rfl⟩ := List.mem_map.1 hq
    rw [openAfter_collapse hb, h.closed p hp]

theorem Row.tail {p : Text} {ps : List Text} (h : b.Row (p :: ps)) : b.Row ps := by
  refine ⟨fun q hq => h.piece q (List.mem_cons_of_mem p hq), fun q hq => h.closed q ?_⟩
  cases ps with
  | nil => cases hq
  | cons r ps => exact List.mem_cons_of_mem p hq

/-- Texts without top-level commas that are joined are split into the same texts, trimmed. -/
theorem pieces_join_solid (hb : b.Usual) {ps : List Text}
    (hsolid : ∀ p ∈ ps, b.stretchesFrom [] none p = [p] ∧ blank p = false)
    (hclosed : ∀ p ∈ ps.dropLast, b.openAfter [] none p = []) :
    b.pieces (join ", " ps) = ps.map trim := by
  induction ps with
  | nil => rfl
  | cons p ps ih =>
    obtain ⟨hp, hblank⟩ := hsolid p List.mem_cons_self
    have hone : b.pieces p = [trim p] := by
      rw [pieces_of_solid hp, hblank, if_neg Bool.false_ne_true]
    cases ps with
    | nil => rwa [join_singleton]
    | cons q ps =>
      have hjoin : join ", " (p :: q :: ps) = p ++ ',' :: ' ' :: join ", " (q :: ps) :=
        join_cons_cons ", " p q ps
      rw [hjoin, pieces_append_comma hb hp (hclosed p (by simp)), hone,
        pieces_cons_of_blank hb isBlank_space,
        ih (fun r hr => hsolid r (List.mem_cons_of_mem p hr))
          fun r hr => hclosed r (List.mem_cons_of_mem p hr)]
      rfl

theorem IsPiece.blank_eq_false {p : Text} (h : b.IsPiece p) : blank p = false := by
  refine Bool.eq_false_iff.2 fun hblank => ?_
  exact h.ne_nil (h.trimmed ▸ trim_eq_nil_iff.2 hblank)

/-- A row that is joined is split into the same row. -/
theorem pieces_join (hb : b.Usual) {ps : List Text} (h : b.Row ps) :
    b.pieces (join ", " ps) = ps := by
  have htrim : ∀ p ∈ ps, trim p = id p := fun p hp => (h.piece p hp).trimmed
  rw [pieces_join_solid hb (fun p hp => ⟨(h.piece p hp).solid, (h.piece p hp).blank_eq_false⟩) h.closed,
    List.map_congr_left htrim, List.map_id]

/-! ## Nothing is lost -/

theorem mem_of_mem_stretchesFrom {opened : List Char} {prev : Option Char} {t s : Text}
    (hs : s ∈ b.stretchesFrom opened prev t) {c : Char} (hc : c ∈ s) : c ∈ t := by
  induction t generalizing opened prev s with
  | nil =>
    rw [stretchesFrom_nil, List.mem_singleton] at hs
    exact hs ▸ hc
  | cons x t ih =>
    rw [stretchesFrom_cons] at hs
    split at hs
    · rcases List.mem_cons.1 hs with rfl | hs
      · cases hc
      · exact List.mem_cons_of_mem x (ih hs hc)
    · obtain ⟨r, rs, hr⟩ := List.exists_cons_of_ne_nil
        (stretchesFrom_ne_nil (b := b) (b.step opened prev x) (some x) t)
      rw [hr, List.modifyHead_cons] at hs
      rcases List.mem_cons.1 hs with rfl | hs
      · rcases List.mem_cons.1 hc with rfl | hc
        · exact List.mem_cons_self
        · exact List.mem_cons_of_mem x (ih (hr ▸ List.mem_cons_self) hc)
      · exact List.mem_cons_of_mem x (ih (hr ▸ List.mem_cons_of_mem r hs) hc)

theorem mem_of_mem_pieces {t p : Text} (hp : p ∈ b.pieces t) {c : Char} (hc : c ∈ p) : c ∈ t := by
  rw [pieces_eq] at hp
  obtain ⟨s, hs, rfl⟩ := List.mem_map.1 (List.mem_filter.1 hp).1
  exact mem_of_mem_stretchesFrom hs (mem_of_mem_trim hc)

theorem filter_pieces_of_solid {q : Char → Bool} (hq : ∀ c, isBlank c = true → q c = false)
    {s : Text} (h : b.stretchesFrom [] none s = [s]) :
    (b.pieces s).flatten.filter q = s.filter q := by
  rw [pieces_of_solid h]
  split
  · next hs => rw [filter_of_blank hq hs]; rfl
  · simp [filter_trim hq]

/-- Splitting drops nothing but blanks and commas. -/
theorem filter_flatten_pieces (hb : b.Usual) {q : Char → Bool}
    (hq : ∀ c, isBlank c = true → q c = false) (hcomma : q ',' = false) (t : Text) :
    (b.pieces t).flatten.filter q = t.filter q := by
  rcases pieces_cases hb t with hone | ⟨s, r, ht, -, hsolid, hcut⟩
  · exact filter_pieces_of_solid hq hone
  · have hlt : r.length < t.length := by
      simp only [ht, List.length_append, List.length_cons]
      omega
    have ih := filter_flatten_pieces hb hq hcomma r
    rw [hcut, ht, List.flatten_append, List.filter_append, filter_pieces_of_solid hq hsolid, ih]
    simp [hcomma]
termination_by t.length

theorem filter_join {q : Char → Bool} (hq : ∀ c, isBlank c = true → q c = false)
    (hcomma : q ',' = false) (ps : List Text) :
    (join ", " ps).filter q = ps.flatten.filter q := by
  induction ps with
  | nil => rfl
  | cons p ps ih =>
    cases ps with
    | nil => simp [join]
    | cons r ps =>
      rw [List.flatten_cons, List.filter_append, ← ih]
      simp [join, List.intercalate_cons_cons, hcomma, hq ' ' isBlank_space]

end Pieces

/-! ## Parentheses among the open brackets -/

section Parentheses

variable {b : Brackets} (hopen : b.opens '(' = true) (hnot : b.opens ')' = false)
  (hclose : b.closes ')' = true)
include hopen hnot hclose

/-- The open parentheses are those that the depth counts, as long as none is closed too often. -/
theorem count_openAfter {opened : List Char} {prev : Option Char} {t : Text} {e : Nat}
    (h : depthAfter '(' ')' (opened.count '(' + 1) t = some e) :
    (b.openAfter opened prev t).count '(' + 1 = e := by
  -- A closer takes its own opener off the list wherever it stands, so other brackets do not count.
  induction t generalizing opened prev with
  | nil => exact Option.some.inj h
  | cons c t ih =>
    rw [openAfter]
    refine ih ?_
    rw [← h, depthAfter]
    by_cases h1 : c = '('
    · subst h1
      simp [step, hopen]
    · by_cases h2 : c = ')'
      · subst h2
        have hne : opened.count '(' + 1 ≠ 1 := by
          intro he
          rw [depthAfter, if_neg h1, if_pos rfl, if_pos he] at h
          cases h
        have hstep : b.step opened prev ')' = opened.erase '(' := by
          simp [step, hnot, closesHere, hclose, isArrowHead, openerOf?]
        rw [if_neg h1, if_pos rfl, if_neg hne, hstep, List.count_erase_self]
        congr 1
        omega
      · have hcount : (b.step opened prev c).count '(' = opened.count '(' := by
          rw [step]
          split
          · rw [List.count_cons_of_ne h1]
          · split
            · split
              · next o ho =>
                refine List.count_erase_of_ne ?_
                rintro rfl
                unfold openerOf? at ho
                split at ho <;> simp_all
              · rfl
            · rfl
        rw [if_neg h1, if_neg h2, hcount]

/-- A piece that closes all its brackets matches its parentheses. -/
theorem depthAfter_of_closed {p : Text} (hclosed : b.openAfter [] none p = []) {e : Nat}
    (h : depthAfter '(' ')' 1 p = some e) : e = 1 := by
  have hcount : (b.openAfter [] none p).count '(' + 1 = e := count_openAfter hopen hnot hclose h
  rw [hclosed] at hcount
  exact hcount.symm

end Parentheses

/-! ## Breaking at a target -/

section Breaking

variable {b : Brackets} {target : Char → Bool}

theorem breakTopFrom_cons (d : Nat) (prev : Option Char) (c : Char) (t : Text) :
    b.breakTopFrom target d prev (c :: t) =
      if target c && d == 0 then some ([], t)
      else (b.breakTopFrom target
        (if b.opens c then d + 1 else if b.closesHere prev c then d - 1 else d) (some c) t).map
          (keep c) := rfl

/-- A break cuts at a target, and no target stands at the top of what precedes it. -/
theorem eq_append_of_breakTopFrom {d : Nat} {prev : Option Char} {t head rest : Text}
    (h : b.breakTopFrom target d prev t = some (head, rest)) :
    ∃ c, t = head ++ c :: rest ∧ target c = true ∧ b.breakTopFrom target d prev head = none := by
  induction t generalizing d prev head with
  | nil => cases h
  | cons c t ih =>
    rw [breakTopFrom_cons] at h
    split at h
    · next hc =>
      obtain ⟨rfl, rfl⟩ := Prod.mk.inj (Option.some.inj h)
      exact ⟨c, rfl, (Bool.and_eq_true_iff.1 hc).1, rfl⟩
    · next hc =>
      obtain ⟨⟨head', rest'⟩, hcut, he⟩ := Option.map_eq_some_iff.1 h
      obtain ⟨rfl, rfl⟩ := Prod.mk.inj he
      obtain ⟨x, rfl, hx, hnone⟩ := ih hcut
      exact ⟨x, rfl, hx, by rw [breakTopFrom_cons, if_neg hc, hnone]; rfl⟩

theorem mem_of_breakTop? {x : Char} {t head rest : Text} (h : b.breakTop? x t = some (head, rest)) :
    (∀ c ∈ head, c ∈ t) ∧ ∀ c ∈ rest, c ∈ t := by
  obtain ⟨d, rfl, -, -⟩ := eq_append_of_breakTopFrom h
  exact ⟨fun _ hc => List.mem_append_left _ hc,
    fun _ hc => List.mem_append_right _ (List.mem_cons_of_mem d hc)⟩

theorem mem_of_mem_cutTop {x : Char} {t : Text} {c : Char} (h : c ∈ b.cutTop x t) : c ∈ t := by
  unfold cutTop at h
  split at h
  · next head rest hcut => exact (mem_of_breakTop? hcut).1 c (mem_of_mem_trim h)
  · exact h

theorem breakTopFrom_of_append {d : Nat} {prev : Option Char} {s t : Text}
    (h : b.breakTopFrom target d prev (s ++ t) = none) :
    b.breakTopFrom target d prev s = none := by
  induction s generalizing d prev with
  | nil => rfl
  | cons c s ih =>
    rw [List.cons_append, breakTopFrom_cons] at h
    rw [breakTopFrom_cons]
    split at h
    · cases h
    · next hc => rw [if_neg hc, ih (Option.map_eq_none_iff.1 h)]; rfl

theorem breakTopFrom_of_calm {prev : Option Char} (h : Calm prev) (d : Nat) (t : Text) :
    b.breakTopFrom target d prev t = b.breakTopFrom target d none t := by
  cases t with
  | nil => rfl
  | cons c t =>
    simp only [breakTopFrom_cons, closesHere, isArrowHead_of_calm h, isArrowHead_of_calm calm_none]

/-! ### Texts without a target at the top -/

/-- A text in which a break outside brackets finds nothing, whatever follows it. -/
def TopFree (b : Brackets) (x : Char) (s : Text) : Prop :=
  ∀ prev u, ∃ prev', b.breakTopFrom (· == x) 0 prev (s ++ u) =
    (b.breakTopFrom (· == x) 0 prev' u).map fun cut => (s ++ cut.1, cut.2)

namespace TopFree

variable {x : Char} {s t : Text}

theorem nil : b.TopFree x [] := fun prev _ => ⟨prev, Option.map_id_apply.symm⟩

theorem append (hs : b.TopFree x s) (ht : b.TopFree x t) : b.TopFree x (s ++ t) := by
  intro prev u
  obtain ⟨prev₁, h₁⟩ := hs prev (t ++ u)
  obtain ⟨prev₂, h₂⟩ := ht prev₁ u
  refine ⟨prev₂, ?_⟩
  rw [List.append_assoc, h₁, h₂, Option.map_map]
  congr 1
  funext cut
  simp

theorem of_all (h : s.all (fun c => c != x && !b.opens c && !b.closes c) = true) : b.TopFree x s := by
  induction s with
  | nil => exact nil
  | cons c s ih =>
    intro prev u
    obtain ⟨hfirst, hs⟩ := Bool.and_eq_true_iff.1 h
    obtain ⟨⟨hx, ho⟩, hc⟩ : (c ≠ x ∧ b.opens c = false) ∧ b.closes c = false := by simpa using hfirst
    obtain ⟨prev', hrest⟩ := ih hs (some c) u
    refine ⟨prev', ?_⟩
    rw [List.cons_append, breakTopFrom_cons, if_neg (by simp [hx]), ho, closesHere, hc]
    simp only [Bool.and_false, Bool.false_and, if_neg Bool.false_ne_true, hrest, Option.map_map]
    rfl

theorem breakTop?_eq_none (h : b.TopFree x s) : b.breakTop? x s = none := by
  obtain ⟨prev', hs⟩ := h none []
  rw [List.append_nil] at hs
  rw [breakTop?, hs]
  rfl

/-- The break is at the first target behind such a text. -/
theorem breakTop?_append (h : b.TopFree x s) (t : Text) : b.breakTop? x (s ++ x :: t) = some (s, t) := by
  obtain ⟨prev', hs⟩ := h none (x :: t)
  rw [breakTop?, hs, breakTopFrom_cons, if_pos (by simp), Option.map_some, List.append_nil]

end TopFree

section Blanks

variable (hb : b.Usual) (htarget : ∀ c, isBlank c = true → target c = false)
include hb htarget

theorem breakTopFrom_cons_of_blank {c : Char} (hc : isBlank c = true) (d : Nat)
    (prev : Option Char) (t : Text) : b.breakTopFrom target d prev (c :: t) =
      (b.breakTopFrom target d none t).map (keep c) := by
  simp [breakTopFrom_cons, htarget c hc, closesHere, opens_of_blank hb hc, closes_of_blank hb hc,
    breakTopFrom_of_calm (calm_of_blank hc)]

theorem breakTopFrom_squeeze_eq_none {d : Nat} {prev : Option Char} {t : Text} :
    b.breakTopFrom target d prev (squeeze t) = none ↔ b.breakTopFrom target d prev t = none := by
  fun_induction squeeze t generalizing d prev with
  | case1 => rfl
  | case2 c cs hc hd ih =>
    cases cs with
    | nil => simp at hd
    | cons x xs =>
      have hx : isBlank x = true := by simpa using hd
      rw [ih, breakTopFrom_cons_of_blank hb htarget hc, breakTopFrom_cons_of_blank hb htarget hx,
        breakTopFrom_cons_of_blank hb htarget hx, Option.map_eq_none_iff, Option.map_eq_none_iff,
        Option.map_eq_none_iff]
  | case3 c cs hc hd ih =>
    rw [breakTopFrom_cons_of_blank hb htarget isBlank_space,
      breakTopFrom_cons_of_blank hb htarget hc, Option.map_eq_none_iff, Option.map_eq_none_iff, ih]
  | case4 c cs hc ih =>
    rw [breakTopFrom_cons, breakTopFrom_cons]
    split
    · simp
    · rw [Option.map_eq_none_iff, Option.map_eq_none_iff, ih]

theorem breakTopFrom_blank_append {g : Text} (hg : blank g = true) {d : Nat} {t : Text} :
    b.breakTopFrom target d none (g ++ t) = none ↔ b.breakTopFrom target d none t = none := by
  induction g with
  | nil => rfl
  | cons c g ih =>
    obtain ⟨hc, hg⟩ := Bool.and_eq_true_iff.1 hg
    rw [List.cons_append, breakTopFrom_cons_of_blank hb htarget hc, Option.map_eq_none_iff, ih hg]

/-- Collapsing a text brings no target to the top. -/
theorem breakTopFrom_collapse {d : Nat} {t : Text} (h : b.breakTopFrom target d none t = none) :
    b.breakTopFrom target d none (collapse t) = none := by
  obtain ⟨g, g', hg, hg', ht⟩ := exists_trim t
  rw [ht] at h
  rw [collapse_eq_squeeze_trim, breakTopFrom_squeeze_eq_none hb htarget]
  exact (breakTopFrom_blank_append hb htarget hg).1 (breakTopFrom_of_append h)

end Blanks

end Breaking

end Synopsis.Brackets
