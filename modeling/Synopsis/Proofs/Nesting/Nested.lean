import Synopsis.Proofs.Nesting.Piece
import Synopsis.Text.Word

/-!
# Well-nested texts

`Nested` is the grammar of texts whose round, square and curly brackets are matched and do not cross.
Such a text leaves every way of counting brackets where it was: the depth of one kind
(`Nested.depthAfter`) and the list of open brackets (`Nested.openAfter`). Without commas outside
brackets it is one piece of a list (`Nested.isPiece`).
-/

namespace Synopsis

open Text Brackets

/-- Whether a character is a round, square or curly bracket. -/
def isBracket (c : Char) : Bool := noAngle.opens c || noAngle.closes c

theorem isBracket_of_isWord {c : Char} (h : isWord c = true) : isBracket c = false := by
  cases hb : isBracket c with
  | false => rfl
  | true =>
    have hmem : c ∈ "()[]{}".toList := by
      simp [isBracket, opens, closes, noAngle] at hb ⊢
      grind
    exact absurd hmem (not_mem_of_all (p := fun x => !isWord x) (by decide) (by simp [h]))

/-- A text with matched brackets that do not cross; `commas` tells whether it may have commas outside
    all of them. -/
inductive Nested : (commas : Bool) → Text → Prop
  | nil {commas : Bool} : Nested commas []
  | plain {commas : Bool} {c : Char} {t : Text} : isBracket c = false → (c = ',' → commas = true) →
      Nested commas t → Nested commas (c :: t)
  | group {commas : Bool} {o c : Char} {s t : Text} : (o, c) ∈ noAngle.pairs → Nested true s →
      Nested commas t → Nested commas (o :: s ++ c :: t)

/-- Every occurrence of a character is inside brackets. -/
def Enclosed (x : Char) (t : Text) : Prop := ∀ a b, t = a ++ x :: b → ¬ Nested true a

namespace Nested

variable {commas : Bool} {s t : Text}

theorem append (hs : Nested commas s) (ht : Nested commas t) : Nested commas (s ++ t) := by
  induction hs with
  | nil => exact ht
  | plain hc hcomma _ ih => exact .plain hc hcomma (ih ht)
  | group hpair hinner _ _ ih =>
    rw [List.append_assoc, List.cons_append]
    exact .group hpair hinner (ih ht)

theorem weaken (h : Nested commas s) : Nested true s := by
  induction h with
  | nil => exact .nil
  | plain hc _ _ ih => exact .plain hc (fun _ => rfl) ih
  | group hpair hinner _ _ ih => exact .group hpair hinner ih

theorem of_all {p : Char → Bool} (hp : ∀ c, p c = true → isBracket c = false ∧ c ≠ ',')
    (h : s.all p = true) : Nested commas s := by
  induction s with
  | nil => exact .nil
  | cons c s ih =>
    obtain ⟨hc, hs⟩ := Bool.and_eq_true_iff.1 h
    exact .plain (hp c hc).1 (fun he => absurd he (hp c hc).2) (ih hs)

/-! ## Depth of one kind -/

theorem ne_of_pair {o c o' c' : Char} (h : (o, c) ∈ noAngle.pairs) (h' : (o', c') ∈ noAngle.pairs) :
    o ≠ c' ∧ c ≠ o' ∧ (o = o' ↔ c = c') := by
  revert h h'
  simp only [noAngle, List.mem_cons, List.not_mem_nil, or_false, Prod.mk.injEq]
  rintro (⟨rfl, rfl⟩ | ⟨rfl, rfl⟩ | ⟨rfl, rfl⟩) (⟨rfl, rfl⟩ | ⟨rfl, rfl⟩ | ⟨rfl, rfl⟩) <;> decide

theorem ne_of_isBracket {o c x : Char} (h : (o, c) ∈ noAngle.pairs) (hx : isBracket x = false) :
    x ≠ o ∧ x ≠ c := by
  revert h
  simp only [noAngle, List.mem_cons, List.not_mem_nil, or_false, Prod.mk.injEq]
  rintro (⟨rfl, rfl⟩ | ⟨rfl, rfl⟩ | ⟨rfl, rfl⟩) <;> constructor <;> rintro rfl <;> cases hx

/-- A nested text leaves the depth of each kind of bracket as it was. -/
theorem depthAfter {o c : Char} (hpair : (o, c) ∈ noAngle.pairs) (h : Nested commas s) {d : Nat}
    (hd : 1 ≤ d) : Synopsis.depthAfter o c d s = some d := by
  induction h generalizing d with
  | nil => rfl
  | plain hx _ _ ih =>
    obtain ⟨ho, hc⟩ := ne_of_isBracket hpair hx
    rw [Synopsis.depthAfter, if_neg ho, if_neg hc, ih hd]
  | @group _ o' c' s t hpair' _ _ ihs iht =>
    obtain ⟨hoc, hco, hiff⟩ := ne_of_pair hpair' hpair
    rw [depthAfter_append, Synopsis.depthAfter]
    by_cases ho : o' = o
    · have hc : c' = c := hiff.1 ho
      rw [if_pos ho, ihs (by omega), Option.bind_some, Synopsis.depthAfter, if_neg hco, if_pos hc,
        if_neg (by omega), Nat.add_sub_cancel, iht hd]
    · have hc : c' ≠ c := fun hc => ho (hiff.2 hc)
      rw [if_neg ho, if_neg hoc, ihs hd, Option.bind_some, Synopsis.depthAfter, if_neg hco, if_neg hc,
        iht hd]

/-! ## Open brackets and pieces -/

theorem opens_of_pair {o c : Char} (h : (o, c) ∈ noAngle.pairs) : noAngle.opens o = true :=
  List.any_eq_true.2 ⟨(o, c), h, by simp⟩

theorem step_opener {o c : Char} (h : (o, c) ∈ noAngle.pairs) (opened : List Char)
    (prev : Option Char) : noAngle.step opened prev o = o :: opened := by
  rw [step, if_pos (opens_of_pair h)]

theorem step_closer {o c : Char} (h : (o, c) ∈ noAngle.pairs) (opened : List Char)
    (prev : Option Char) : noAngle.step (o :: opened) prev c = opened := by
  revert h
  simp only [noAngle, List.mem_cons, List.not_mem_nil, or_false, Prod.mk.injEq]
  rintro (⟨rfl, rfl⟩ | ⟨rfl, rfl⟩ | ⟨rfl, rfl⟩) <;>
    simp [step, closesHere, opens, closes, isArrowHead, openerOf?]

theorem step_of_isBracket {x : Char} (h : isBracket x = false) (opened : List Char)
    (prev : Option Char) : noAngle.step opened prev x = opened := by
  obtain ⟨ho, hc⟩ := Bool.or_eq_false_iff.1 h
  exact step_of_other ho hc opened prev

/-- A nested text leaves the same brackets open as before it. -/
theorem openAfter (h : Nested commas s) (opened : List Char) (prev : Option Char) :
    noAngle.openAfter opened prev s = opened := by
  induction h generalizing opened prev with
  | nil => rfl
  | plain hx _ _ ih => rw [Brackets.openAfter, step_of_isBracket hx, ih]
  | @group _ o c s t hpair _ _ ihs iht =>
    have hinner : noAngle.openAfter opened prev (o :: s) = o :: opened := by
      rw [Brackets.openAfter, step_opener hpair, ihs]
    rw [openAfter_append, hinner, Brackets.openAfter, step_closer hpair, iht]

theorem ne_comma_of_pair {o c : Char} (h : (o, c) ∈ noAngle.pairs) : o ≠ ',' ∧ c ≠ ',' := by
  revert h
  simp only [noAngle, List.mem_cons, List.not_mem_nil, or_false, Prod.mk.injEq]
  rintro (⟨rfl, rfl⟩ | ⟨rfl, rfl⟩ | ⟨rfl, rfl⟩) <;> decide

/-- A nested text is not cut, unless by its commas where no bracket is open. -/
theorem stretchesFrom_append (h : Nested commas s) (opened : List Char)
    (hopened : commas = true → opened ≠ []) (prev : Option Char) (t : Text) :
    ∃ prev', noAngle.stretchesFrom opened prev (s ++ t) =
      (noAngle.stretchesFrom opened prev' t).modifyHead (s ++ ·) := by
  -- The character before `t` is some last one of `s`; which one it is does not matter to callers.
  induction h generalizing opened prev t with
  | nil => exact ⟨prev, (congrFun List.modifyHead_id _).symm⟩
  | @plain _ c s hc hcomma _ ih =>
    have hkeep : ((noAngle.step opened prev c).isEmpty && c == ',') = false := by
      rw [step_of_isBracket hc]
      cases hcc : c == ',' with
      | false => exact Bool.and_false _
      | true => simp [hopened (hcomma (by simpa using hcc))]
    obtain ⟨prev', hrest⟩ := ih opened hopened (some c) t
    refine ⟨prev', ?_⟩
    rw [List.cons_append, stretchesFrom_cons, hkeep, if_neg Bool.false_ne_true, step_of_isBracket hc,
      hrest, List.modifyHead_modifyHead]
    rfl
  | @group _ o c s u hpair _ _ ihs ihu =>
    obtain ⟨ho, hc⟩ := ne_comma_of_pair hpair
    obtain ⟨prev₁, hinner⟩ := ihs (o :: opened) (fun _ => List.cons_ne_nil o opened) (some o)
      (c :: (u ++ t))
    obtain ⟨prev₂, hrest⟩ := ihu opened hopened (some c) t
    refine ⟨prev₂, ?_⟩
    rw [List.append_assoc, List.cons_append, List.cons_append, stretchesFrom_cons_of_ne ho,
      step_opener hpair, hinner, stretchesFrom_cons_of_ne hc, step_closer hpair, hrest,
      List.modifyHead_modifyHead, List.modifyHead_modifyHead, List.modifyHead_modifyHead]
    congr 1
    funext x
    simp

/-- A nested text without commas outside brackets is not cut. -/
theorem solid (h : Nested false s) : noAngle.stretchesFrom [] none s = [s] := by
  obtain ⟨prev, hs⟩ := h.stretchesFrom_append [] (fun he => nomatch he) none []
  rw [List.append_nil, stretchesFrom_nil] at hs
  simpa using hs

/-- A trimmed nested text without commas outside brackets is one piece of a list. -/
theorem isPiece (h : Nested false s) (hne : s ≠ []) (htrim : trim s = s) : noAngle.IsPiece s where
  ne_nil := hne
  trimmed := htrim
  solid := h.solid

/-! ## Breaking outside brackets -/

theorem closesHere_of_pair {o c : Char} (h : (o, c) ∈ noAngle.pairs) (prev : Option Char) :
    noAngle.opens c = false ∧ noAngle.closesHere prev c = true := by
  revert h
  simp only [noAngle, List.mem_cons, List.not_mem_nil, or_false, Prod.mk.injEq]
  rintro (⟨rfl, rfl⟩ | ⟨rfl, rfl⟩ | ⟨rfl, rfl⟩) <;> simp [closesHere, opens, closes, isArrowHead]

theorem breakTopFrom_of_isBracket {target : Char → Bool} {x : Char} (h : isBracket x = false) {d : Nat}
    (hx : (target x && d == 0) = false) (prev : Option Char) (t : Text) :
    noAngle.breakTopFrom target d prev (x :: t) =
      (noAngle.breakTopFrom target d (some x) t).map (keep x) := by
  obtain ⟨ho, hc⟩ := Bool.or_eq_false_iff.1 h
  rw [breakTopFrom_cons, hx, if_neg Bool.false_ne_true, ho, closesHere, hc, Bool.and_false,
    Bool.false_and, if_neg Bool.false_ne_true, if_neg Bool.false_ne_true]

theorem breakTopFrom_opener {target : Char → Bool} {o c : Char} (h : (o, c) ∈ noAngle.pairs) {d : Nat}
    (ho : (target o && d == 0) = false) (prev : Option Char) (t : Text) :
    noAngle.breakTopFrom target d prev (o :: t) =
      (noAngle.breakTopFrom target (d + 1) (some o) t).map (keep o) := by
  rw [breakTopFrom_cons, ho, if_neg Bool.false_ne_true, if_pos (opens_of_pair h)]

theorem breakTopFrom_closer {target : Char → Bool} {o c : Char} (h : (o, c) ∈ noAngle.pairs) (d : Nat)
    (prev : Option Char) (t : Text) : noAngle.breakTopFrom target (d + 1) prev (c :: t) =
      (noAngle.breakTopFrom target d (some c) t).map (keep c) := by
  obtain ⟨ho, hc⟩ := closesHere_of_pair h prev
  rw [breakTopFrom_cons, if_neg (by simp), ho, if_neg Bool.false_ne_true, if_pos hc, Nat.add_sub_cancel]

/-- No break is found in a nested text that is itself inside brackets. -/
theorem breakTopFrom_inside (h : Nested commas s) (target : Char → Bool) (d : Nat) (prev : Option Char)
    (u : Text) : ∃ prev', noAngle.breakTopFrom target (d + 1) prev (s ++ u) =
      (noAngle.breakTopFrom target (d + 1) prev' u).map fun cut => (s ++ cut.1, cut.2) := by
  induction h generalizing d prev u with
  | nil => exact ⟨prev, Option.map_id_apply.symm⟩
  | plain hc _ _ ih =>
    obtain ⟨prev', hrest⟩ := ih d _ u
    refine ⟨prev', ?_⟩
    rw [List.cons_append, breakTopFrom_of_isBracket hc (by simp), hrest, Option.map_map]
    rfl
  | @group _ o c s t hpair _ _ ihs iht =>
    obtain ⟨prev₁, hinner⟩ := ihs (d + 1) (some o) (c :: (t ++ u))
    obtain ⟨prev₂, hrest⟩ := iht d (some c) u
    refine ⟨prev₂, ?_⟩
    rw [List.append_assoc, List.cons_append, List.cons_append, breakTopFrom_opener hpair (by simp),
      hinner, breakTopFrom_closer hpair, hrest, Option.map_map, Option.map_map, Option.map_map]
    congr 1
    funext cut
    simp [keep]

/-- A nested text whose every `x` is inside brackets has none to break at. -/
theorem topFree (h : Nested commas s) {x : Char} (hx : Enclosed x s) : noAngle.TopFree x s := by
  induction h with
  | nil => exact .nil
  | @plain _ c s hc _ _ ih =>
    intro prev u
    have hne : c ≠ x := by
      rintro rfl
      exact hx [] s rfl .nil
    have hrest : Enclosed x s := by
      rintro a b rfl ha
      exact hx (c :: a) b rfl (.plain hc (fun _ => rfl) ha)
    obtain ⟨prev', hbreak⟩ := ih hrest (some c) u
    refine ⟨prev', ?_⟩
    rw [List.cons_append, breakTopFrom_of_isBracket hc (by simp [hne]), hbreak, Option.map_map]
    rfl
  | @group _ o c s t hpair hs _ _ iht =>
    intro prev u
    have hne : o ≠ x := by
      rintro rfl
      exact hx [] (s ++ c :: t) rfl .nil
    have hrest : Enclosed x t := by
      rintro a b rfl ha
      exact hx (o :: s ++ c :: a) b (by simp) (.group hpair hs ha)
    obtain ⟨prev₁, hinner⟩ := hs.breakTopFrom_inside (· == x) 0 (some o) (c :: (t ++ u))
    obtain ⟨prev₂, hbreak⟩ := iht hrest (some c) u
    refine ⟨prev₂, ?_⟩
    rw [List.append_assoc, List.cons_append, List.cons_append, breakTopFrom_opener hpair (by simp [hne]),
      hinner, breakTopFrom_closer hpair, hbreak, Option.map_map, Option.map_map, Option.map_map]
    congr 1
    funext cut
    simp [keep]

/-! ## Counts -/

/-- A nested text has as many closing parentheses as opening ones. -/
theorem count_eq (h : Nested commas s) : s.count '(' = s.count ')' := by
  induction h with
  | nil => rfl
  | plain hc _ _ ih =>
    obtain ⟨h1, h2⟩ := ne_of_isBracket (o := '(') (c := ')') (by decide) hc
    rw [List.count_cons_of_ne h1, List.count_cons_of_ne h2, ih]
  | group hpair _ _ ihs iht =>
    revert hpair
    simp only [noAngle, List.mem_cons, List.not_mem_nil, or_false, Prod.mk.injEq]
    rintro (⟨rfl, rfl⟩ | ⟨rfl, rfl⟩ | ⟨rfl, rfl⟩)
    · simp [ihs, iht]
      omega
    · simp [ihs, iht]
    · simp [ihs, iht]

end Nested

/-! ## Lists -/

/-- Nested texts in a row are nested. -/
theorem nested_join {ps : List Text} (h : ∀ p ∈ ps, Nested true p) : Nested true (join ", " ps) := by
  induction ps with
  | nil => exact .nil
  | cons p ps ih =>
    cases ps with
    | nil =>
      rw [join_singleton]
      exact h p List.mem_cons_self
    | cons q ps =>
      rw [join_cons_cons]
      refine (h p List.mem_cons_self).append ?_
      exact .plain (by decide) (fun _ => rfl) (.plain (by decide) (by decide)
        (ih fun r hr => h r (List.mem_cons_of_mem p hr)))

end Synopsis
