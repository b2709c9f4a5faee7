import Synopsis.Proofs.Nesting.Piece

/-!
# Matched brackets and the two ways to look outside them

`nestAfter?` reads a text with a strict rule: a closer must answer the bracket that was opened last. A text
that opens and closes everything by this rule is `WellNested`. The splitter keeps a list of open brackets from
which a closer takes its own kind wherever it stands, and the search for a first target keeps a mere count.
On matched brackets the three agree: the list is the strict one (`openAfter_of_nestAfter?`) and the count is
its length (`breakTopFrom_of_nestAfter?`). So a well-nested text whose commas are all enclosed is one piece
(`WellNested.isPiece`), and a target that it encloses is not found in it (`WellNested.topFree`).
-/

namespace Synopsis.Brackets

open Text

/-- The open brackets after a character, the last one opened first; nothing if it closes any other. -/
def nestStep? (b : Brackets) (opened : List Char) (prev : Option Char) (c : Char) :
    Option (List Char) :=
  if b.opens c then some (c :: opened)
  else if b.closesHere prev c then
    match opened with
    | [] => none
    | o :: opened => if openerOf? c = some o then some opened else none
  else some opened

/-- The open brackets after a text that follows `prev` with some already open. -/
def nestAfter? (b : Brackets) : (opened : List Char) → (prev : Option Char) → Text →
    Option (List Char)
  | opened, _, [] => some opened
  | opened, prev, c :: cs => (b.nestStep? opened prev c).bind (b.nestAfter? · (some c) cs)

/-- Every closer of a text answers the bracket opened last before it, and nothing is left open. -/
def WellNested (b : Brackets) (t : Text) : Prop := b.nestAfter? [] none t = some []

instance (b : Brackets) (t : Text) : Decidable (b.WellNested t) :=
  inferInstanceAs (Decidable (_ = _))

/-- Every occurrence of a character is inside brackets. -/
def Encloses (b : Brackets) (x : Char) (t : Text) : Prop :=
  ∀ s u, t = s ++ x :: u → ¬ b.WellNested s

/-- Enclosing can be told by looking at every place where the character stands. -/
theorem encloses_iff {b : Brackets} {x : Char} {t : Text} : b.Encloses x t ↔
    ∀ k ∈ List.range (t.length + 1), (t.drop k).head? = some x → ¬ b.WellNested (t.take k) := by
  constructor
  · intro h k _ hhead
    obtain ⟨u, hu⟩ := List.head?_eq_some_iff.1 hhead
    exact h (t.take k) u (by rw [← hu, List.take_append_drop])
  · intro h s u hcut
    exact forall_cut_of_range (p := fun a r => r.head? = some x → ¬ b.WellNested a) h hcut rfl

instance (b : Brackets) (x : Char) (t : Text) : Decidable (b.Encloses x t) :=
  decidable_of_iff _ encloses_iff.symm

section Matched

variable {b : Brackets} {opened opened' : List Char} {prev : Option Char} {s t : Text}

/-! ## One character -/

/-- What a character can do: open a bracket, close the last one, or nothing. -/
theorem nestStep?_cases {c : Char} (h : b.nestStep? opened prev c = some opened') :
    (b.opens c = true ∧ opened' = c :: opened) ∨
      (b.opens c = false ∧ b.closesHere prev c = true ∧
        ∃ o, openerOf? c = some o ∧ opened = o :: opened') ∨
      (b.opens c = false ∧ b.closesHere prev c = false ∧ opened' = opened) := by
  unfold nestStep? at h
  split at h
  · next ho => exact .inl ⟨ho, (Option.some.inj h).symm⟩
  · next ho =>
    have ho : b.opens c = false := by simpa using ho
    split at h
    · next hc =>
      cases opened with
      | nil => cases h
      | cons o opened =>
        simp only at h
        split at h
        · next hpair => exact .inr (.inl ⟨ho, hc, o, hpair, by rw [Option.some.inj h]⟩)
        · cases h
    · next hc => exact .inr (.inr ⟨ho, by simpa using hc, (Option.some.inj h).symm⟩)

theorem nestStep?_of_other {c : Char} (ho : b.opens c = false) (hc : b.closes c = false)
    (opened : List Char) (prev : Option Char) : b.nestStep? opened prev c = some opened := by
  simp [nestStep?, closesHere, ho, hc]

theorem nestStep?_append {c : Char} (h : b.nestStep? opened prev c = some opened')
    (rest : List Char) : b.nestStep? (opened ++ rest) prev c = some (opened' ++ rest) := by
  rcases nestStep?_cases h with ⟨ho, rfl⟩ | ⟨ho, hc, o, hpair, rfl⟩ | ⟨ho, hc, rfl⟩
  · simp [nestStep?, ho]
  · simp [nestStep?, ho, hc, hpair]
  · simp [nestStep?, ho, hc]

/-- Where nothing is open no character can close, so what stands before it does not matter. -/
theorem nestStep?_nil {c : Char} (h : b.nestStep? [] none c = some opened) (prev : Option Char) :
    b.nestStep? [] prev c = some opened := by
  rcases nestStep?_cases h with ⟨ho, rfl⟩ | ⟨-, -, o, -, hnil⟩ | ⟨ho, hc, rfl⟩
  · simp [nestStep?, ho]
  · cases hnil
  · have hclose : b.closes c = false := by
      simpa [closesHere, ho, isArrowHead_of_calm calm_none] using hc
    exact nestStep?_of_other ho hclose [] prev

theorem step_of_nestStep? {c : Char} (h : b.nestStep? opened prev c = some opened') :
    b.step opened prev c = opened' := by
  rcases nestStep?_cases h with ⟨ho, rfl⟩ | ⟨ho, hc, o, hpair, rfl⟩ | ⟨ho, hc, rfl⟩
  · simp [step, ho]
  · simp [step, ho, hc, hpair]
  · simp [step, ho, hc]

/-- The count of the search is the number of open brackets. -/
theorem depth_of_nestStep? {c : Char} (h : b.nestStep? opened prev c = some opened') :
    (if b.opens c then opened.length + 1
      else if b.closesHere prev c then opened.length - 1 else opened.length) = opened'.length := by
  rcases nestStep?_cases h with ⟨ho, rfl⟩ | ⟨ho, hc, o, -, rfl⟩ | ⟨ho, hc, rfl⟩
  · simp [ho]
  · simp [ho, hc]
  · simp [ho, hc]

/-! ## Texts -/

theorem nestAfter?_append (opened : List Char) (prev : Option Char) (s t : Text) :
    b.nestAfter? opened prev (s ++ t) =
      (b.nestAfter? opened prev s).bind (b.nestAfter? · (s.getLast?.or prev) t) := by
  induction s generalizing opened prev with
  | nil => rfl
  | cons c s ih =>
    rw [List.cons_append, nestAfter?, nestAfter?, Option.bind_assoc]
    congr 1
    funext opened
    rw [ih, List.getLast?_cons]
    cases s.getLast? <;> rfl

theorem nestAfter?_extend (h : b.nestAfter? opened prev s = some opened') (rest : List Char) :
    b.nestAfter? (opened ++ rest) prev s = some (opened' ++ rest) := by
  induction s generalizing opened prev with
  | nil =>
    obtain rfl : opened = opened' := Option.some.inj h
    rfl
  | cons c s ih =>
    obtain ⟨mid, hstep, hrest⟩ := Option.bind_eq_some_iff.1 h
    rw [nestAfter?, nestStep?_append hstep, Option.bind_some, ih hrest]

theorem openAfter_of_nestAfter? (h : b.nestAfter? opened prev s = some opened') :
    b.openAfter opened prev s = opened' := by
  induction s generalizing opened prev with
  | nil => exact Option.some.inj h
  | cons c s ih =>
    obtain ⟨mid, hstep, hrest⟩ := Option.bind_eq_some_iff.1 h
    rw [openAfter, step_of_nestStep? hstep, ih hrest]

/-- No stretch ends in a text whose commas all stand where something is open. -/
theorem stretchesFrom_of_nestAfter? (hb : b.Usual) (h : b.nestAfter? opened prev s = some opened')
    (hcomma : ∀ a u, s = a ++ ',' :: u → b.nestAfter? opened prev a ≠ some []) :
    b.stretchesFrom opened prev s = [s] := by
  induction s generalizing opened prev with
  | nil => rfl
  | cons c s ih =>
    obtain ⟨mid, hstep, hrest⟩ := Option.bind_eq_some_iff.1 h
    have hkeep : ((b.step opened prev c).isEmpty && c == ',') = false := by
      rw [Bool.and_eq_false_iff]
      by_cases hc : c = ','
      · subst hc
        have hopened : opened ≠ [] := fun he => hcomma [] s rfl (by rw [he]; rfl)
        exact .inl (by rw [step_comma hb]; simpa using hopened)
      · exact .inr (by simpa using hc)
    have hinner : ∀ a u, s = a ++ ',' :: u → b.nestAfter? mid (some c) a ≠ some [] := by
      rintro a u rfl hnil
      exact hcomma (c :: a) u rfl (by rw [nestAfter?, hstep, Option.bind_some, hnil])
    rw [stretchesFrom_cons, hkeep, if_neg Bool.false_ne_true, step_of_nestStep? hstep, ih hrest hinner]
    rfl

/-- A search passes a text whose targets all stand where something is open. -/
theorem breakTopFrom_of_nestAfter? {x : Char} (h : b.nestAfter? opened prev s = some opened')
    (hx : ∀ a u, s = a ++ x :: u → b.nestAfter? opened prev a ≠ some []) (t : Text) :
    b.breakTopFrom (· == x) opened.length prev (s ++ t) =
      (b.breakTopFrom (· == x) opened'.length (s.getLast?.or prev) t).map
        fun cut => (s ++ cut.1, cut.2) := by
  induction s generalizing opened prev with
  | nil =>
    obtain rfl : opened = opened' := Option.some.inj h
    exact Option.map_id_apply.symm
  | cons c s ih =>
    obtain ⟨mid, hstep, hrest⟩ := Option.bind_eq_some_iff.1 h
    have hpass : ¬ ((c == x) && opened.length == 0) = true := by
      rintro hstop
      obtain ⟨hc, hlength⟩ := Bool.and_eq_true_iff.1 hstop
      obtain rfl : c = x := eq_of_beq hc
      have hopened : opened = [] := List.length_eq_zero_iff.1 (eq_of_beq hlength)
      exact hx [] s rfl (by rw [hopened]; rfl)
    have hinner : ∀ a u, s = a ++ x :: u → b.nestAfter? mid (some c) a ≠ some [] := by
      rintro a u rfl hnil
      exact hx (c :: a) u rfl (by rw [nestAfter?, hstep, Option.bind_some, hnil])
    have hlast : (c :: s).getLast?.or prev = s.getLast?.or (some c) := by
      rw [List.getLast?_cons]
      cases s.getLast? <;> rfl
    rw [List.cons_append, breakTopFrom_cons, if_neg hpass, depth_of_nestStep? hstep, ih hrest hinner,
      hlast, Option.map_map]
    rfl

/-! ## Well-nested texts -/

theorem nestAfter?_plain (h : ∀ c ∈ s, b.opens c = false ∧ b.closes c = false) (opened : List Char)
    (prev : Option Char) : b.nestAfter? opened prev s = some opened := by
  induction s generalizing prev with
  | nil => rfl
  | cons c s ih =>
    obtain ⟨ho, hc⟩ := h c List.mem_cons_self
    rw [nestAfter?, nestStep?_of_other ho hc, Option.bind_some,
      ih fun d hd => h d (List.mem_cons_of_mem c hd)]

namespace WellNested

theorem nil : b.WellNested [] := rfl

theorem of_plain (h : ∀ c ∈ s, b.opens c = false ∧ b.closes c = false) : b.WellNested s :=
  nestAfter?_plain h [] none

/-- A beginning of a well-nested text is read in the same way wherever the text stands. -/
theorem nestAfter?_beginning (h : b.WellNested (s ++ t)) (prev : Option Char) :
    b.nestAfter? [] prev s = b.nestAfter? [] none s := by
  cases s with
  | nil => rfl
  | cons c s =>
    obtain ⟨mid, hstep, -⟩ := Option.bind_eq_some_iff.1 h
    rw [nestAfter?, nestAfter?, hstep, nestStep?_nil hstep]

/-- A well-nested text leaves open what was open. -/
theorem nestAfter?_eq (h : b.WellNested s) (opened : List Char) (prev : Option Char) :
    b.nestAfter? opened prev s = some opened := by
  have hstart : b.nestAfter? [] prev s = some [] := by
    rw [nestAfter?_beginning (t := []) (by rwa [List.append_nil]), h]
  exact nestAfter?_extend hstart opened

theorem append (hs : b.WellNested s) (ht : b.WellNested t) : b.WellNested (s ++ t) := by
  rw [WellNested, nestAfter?_append, hs, Option.bind_some, ht.nestAfter?_eq]

/-- The brackets in front of a place inside a well-nested text are never closed too often. -/
theorem exists_opened (h : b.WellNested (s ++ t)) : ∃ opened, b.nestAfter? [] none s = some opened := by
  rw [WellNested, nestAfter?_append] at h
  obtain ⟨opened, hopened, -⟩ := Option.bind_eq_some_iff.1 h
  exact ⟨opened, hopened⟩

theorem openAfter (h : b.WellNested s) (opened : List Char) (prev : Option Char) :
    b.openAfter opened prev s = opened :=
  openAfter_of_nestAfter? (h.nestAfter?_eq opened prev)

/-- A trimmed well-nested text that encloses its commas is one piece of a list. -/
theorem isPiece (hb : b.Usual) (h : b.WellNested s) (hcomma : b.Encloses ',' s) (hne : s ≠ [])
    (htrim : trim s = s) : b.IsPiece s where
  ne_nil := hne
  trimmed := htrim
  solid := stretchesFrom_of_nestAfter? hb h hcomma

/-- A target that a well-nested text encloses is not found in it. -/
theorem topFree {x : Char} (h : b.WellNested s) (hx : b.Encloses x s) : b.TopFree x s := by
  intro prev u
  have hinner : ∀ a r, s = a ++ x :: r → b.nestAfter? [] prev a ≠ some [] := by
    rintro a r rfl
    rw [nestAfter?_beginning h]
    exact hx a r rfl
  exact ⟨_, breakTopFrom_of_nestAfter? (h.nestAfter?_eq [] prev) hinner u⟩

end WellNested

/-! ## Enclosed characters -/

namespace Encloses

variable {x : Char}

theorem of_not_mem (h : x ∉ s) : b.Encloses x s := by
  rintro a u rfl
  exact absurd (List.mem_append_right a List.mem_cons_self) h

theorem append (hs : b.WellNested s) (ht : b.WellNested t) (hxs : b.Encloses x s)
    (hxt : b.Encloses x t) : b.Encloses x (s ++ t) := by
  intro a u hcut hnested
  rcases List.append_eq_append_iff.1 hcut with ⟨r, rfl, rfl⟩ | ⟨r, rfl, hr⟩
  · -- The target is in the second text, where brackets count as if nothing stood before it.
    rw [WellNested, nestAfter?_append, hs, Option.bind_some, ht.nestAfter?_beginning] at hnested
    exact hxt r u rfl hnested
  · cases r with
    | nil =>
      obtain rfl : t = x :: u := hr.symm
      exact hxt [] u rfl .nil
    | cons y r =>
      obtain ⟨rfl, -⟩ := List.cons.inj hr
      exact hxs a r rfl hnested

end Encloses

/-! ## Groups -/

theorem nestStep?_opener {o : Char} (ho : b.opens o = true) (opened : List Char) (prev : Option Char) :
    b.nestStep? opened prev o = some (o :: opened) := by
  simp [nestStep?, ho]

/-- Brackets around a well-nested text, the closing one no part of an arrow. -/
theorem WellNested.group {o c : Char} (ho : b.opens o = true) (hc : b.opens c = false)
    (hcloses : ∀ prev, b.closesHere prev c = true) (hpair : openerOf? c = some o) (h : b.WellNested s) :
    b.WellNested (o :: s ++ [c]) := by
  have hend (prev : Option Char) : b.nestStep? [o] prev c = some [] := by
    simp [nestStep?, hc, hcloses prev, hpair]
  rw [WellNested, List.cons_append, nestAfter?, nestStep?_opener ho, Option.bind_some, nestAfter?_append,
    h.nestAfter?_eq, Option.bind_some, nestAfter?, hend]
  rfl

theorem Encloses.group {x o : Char} (ho : b.opens o = true) (hx : x ≠ o) (h : b.WellNested s) (c : Char) :
    b.Encloses x (o :: s ++ [c]) := by
  intro a u hcut hnested
  cases a with
  | nil => exact hx (List.cons.inj hcut).1.symm
  | cons y a =>
    have hinside : s ++ [c] = a ++ x :: u := (List.cons.inj hcut).2
    obtain rfl : o = y := (List.cons.inj hcut).1
    -- What precedes the target is a beginning of `s`, so the bracket around `s` is still open.
    obtain ⟨r, rfl⟩ : ∃ r, s = a ++ r := by
      rcases List.append_eq_append_iff.1 hinside with ⟨r, rfl, hr⟩ | ⟨r, rfl, -⟩
      · cases r with
        | nil => exact ⟨[], by simp⟩
        | cons z r => simp at hr
      · exact ⟨r, rfl⟩
    obtain ⟨opened, hopened⟩ := h.exists_opened
    rw [← h.nestAfter?_beginning (some o)] at hopened
    have hinner := nestAfter?_extend hopened [o]
    rw [List.nil_append] at hinner
    rw [WellNested, nestAfter?, nestStep?_opener ho, Option.bind_some, hinner] at hnested
    simp at hnested

end Matched

end Synopsis.Brackets
