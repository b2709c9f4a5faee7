import Mathlib.Data.List.Chain
import Synopsis.Language
import Synopsis.Proofs.Nesting.Piece
import Synopsis.Proofs.Text.Reader

/-!
# Go: the order of parameters

Lone names wait for the type of a later piece. Every piece of a parameter list gives one parameter all the
same, with the name of the piece and its own type or the next one behind it, and no parameter comes from
elsewhere (`resolve_perm`). A function type without a name passes the waiting names: parameters stand in
the order of their pieces when no lone name stands directly before such a type (`parameters_in_order`),
and not when one does (`parameters_overtaken`).
-/

namespace Synopsis.Go

open Text Brackets

/-! ## What a piece declares -/

/-- A function type without a name. -/
def isUnnamed (p : Text) : Bool := (after? "func(".toList p).isSome

/-- The name that a piece declares: its first word, unless it has no name. -/
def pieceName (p : Text) : Text :=
  if isUnnamed p then "(anonymous)".toList else (words p).head?.getD []

/-- The type behind the name of a piece: all its words but the first. -/
def ownType? (p : Text) : Option Text :=
  if isUnnamed p then none else nonempty? (join " " (words p).tail)

/-- A name whose type stands in a later piece, if anywhere. -/
def isLone (p : Text) : Bool := !isUnnamed p && (ownType? p).isNone

/-- The type of a piece in front of others: the first one behind a name, from the piece itself on. A
    function type without a name is its own. -/
def pieceType? (p : Text) (later : List Text) : Option Text :=
  if isUnnamed p then some p else (p :: later).findSome? ownType?

/-- What pieces declare, in the order in which they stand. -/
def declared : List Text → List Parameter
  | [] => []
  | p :: ps => { name := pieceName p, type := pieceType? p ps } :: declared ps

/-- What pieces declare with names waiting in front of them. -/
def declaredAfter (waiting pieces : List Text) : List Parameter :=
  (waiting.map fun n => { name := n, type := pieces.findSome? ownType? }) ++ declared pieces

theorem map_name_declared (ps : List Text) : (declared ps).map (·.name) = ps.map pieceName := by
  induction ps with
  | nil => rfl
  | cons p ps ih => rw [declared, List.map_cons, List.map_cons, ih]

/-! ## First words -/

/-- The first word of a text that starts with no blank ends before the first blank. -/
theorem words_cut {c : Char} (hc : isBlank c = false) (t : Text) : words (c :: t) =
    (c :: t).takeWhile (!isBlank ·) :: words ((c :: t).dropWhile (!isBlank ·)) := by
  have hcut : (c :: t).takeWhile (!isBlank ·) ++ (c :: t).dropWhile (!isBlank ·) = c :: t :=
    List.takeWhile_append_dropWhile
  have hsolid (x : Char) (hx : x ∈ (c :: t).takeWhile (!isBlank ·)) : isBlank x = false := by
    simpa using List.all_eq_true.1 List.all_takeWhile x hx
  have hne : (c :: t).takeWhile (!isBlank ·) ≠ [] := by simp [hc]
  cases hd : (c :: t).dropWhile (!isBlank ·) with
  | nil =>
    rw [hd, List.append_nil] at hcut
    rw [hcut] at hsolid hne ⊢
    exact words_of_solid hne hsolid
  | cons d r =>
    have hblank : isBlank d = true := by
      simpa using not_of_head?_dropWhile (p := (!isBlank ·)) (t := c :: t) (c := d) (by rw [hd]; rfl)
    rw [hd] at hcut
    conv => lhs; rw [← hcut]
    rw [words_append_cons_of_blank hblank, words_of_solid hne hsolid, words_cons_of_blank hblank]
    rfl

theorem words_trimStart (t : Text) : words (trimStart t) = words t := by
  obtain ⟨g, hg, ht, -⟩ := exists_trimStart t
  conv => rhs; rw [ht, words_blank_append hg]

theorem map_collapse_trimStart (t : Text) :
    (nonempty? (trimStart t)).map collapse = nonempty? (join " " (words t)) := by
  have hcollapse : collapse (trimStart t) = join " " (words t) := by rw [collapse, words_trimStart]
  obtain ⟨g, -, -, hhead⟩ := exists_trimStart t
  cases hu : trimStart t with
  | nil =>
    rw [hu] at hcollapse
    rw [← hcollapse]
    rfl
  | cons c u =>
    rw [hu] at hcollapse hhead
    have hc : isBlank c = false := by simpa using hhead
    have hne : join " " (words t) ≠ [] := by
      rw [← hcollapse, Ne, collapse_eq_nil_iff, blank_cons, hc, Bool.false_and]
      exact Bool.false_ne_true
    rw [nonempty?_of_ne_nil (List.cons_ne_nil c u), nonempty?_of_ne_nil hne, Option.map_some, hcollapse]

theorem exists_firstWord? {t w : Text} {ws : List Text} (h : words t = w :: ws) :
    ∃ rest, firstWord? t = some (w, rest) ∧ rest.map collapse = nonempty? (join " " ws) := by
  rw [← words_trimStart] at h
  obtain ⟨-, -, -, hhead⟩ := exists_trimStart t
  cases hu : trimStart t with
  | nil => rw [hu] at h; cases h
  | cons c u =>
    rw [hu] at h hhead
    rw [words_cut (by simpa using hhead)] at h
    obtain ⟨rfl, rfl⟩ := List.cons.inj h
    refine ⟨_, ?_, map_collapse_trimStart _⟩
    unfold firstWord?
    rw [hu]

/-! ## One piece -/

section Piece

variable {p : Text} (waiting ps : List Text)

/-- A function type without a name comes out before the names that wait. -/
theorem resolve_unnamed (h : isUnnamed p = true) : resolve waiting (p :: ps) =
    { name := "(anonymous)".toList, type := some p } :: resolve waiting ps := by
  rw [isUnnamed] at h
  rw [resolve, if_pos h]

theorem pieceName_of_words {w : Text} {ws : List Text} (hp : isUnnamed p = false)
    (h : words p = w :: ws) : pieceName p = w := by
  rw [pieceName, hp, h]
  rfl

/-- A piece with a type of its own ends the waiting of all names before it. -/
theorem resolve_typed {type : Text} (h : ownType? p = some type) :
    resolve waiting (p :: ps) = typed (waiting ++ [pieceName p]) type ++ resolve [] ps := by
  rw [ownType?] at h
  split at h
  · cases h
  · next hnamed =>
    have hnamed : isUnnamed p = false := by simpa using hnamed
    cases hw : words p with
    | nil => rw [hw] at h; cases h
    | cons w ws =>
      obtain ⟨rest, hfirst, hrest⟩ := exists_firstWord? hw
      rw [hw, List.tail_cons, ← hrest] at h
      obtain ⟨r, rfl, rfl⟩ := Option.map_eq_some_iff.1 h
      rw [pieceName_of_words hnamed hw]
      rw [isUnnamed] at hnamed
      rw [resolve, hnamed, hfirst]
      rfl

/-- A lone name waits behind those that wait already. -/
theorem resolve_lone (h : isLone p = true) (hp : words p ≠ []) :
    resolve waiting (p :: ps) = resolve (waiting ++ [pieceName p]) ps := by
  obtain ⟨hnamed, hnone⟩ := Bool.and_eq_true_iff.1 h
  have hnamed : isUnnamed p = false := by simpa using hnamed
  obtain ⟨w, ws, hw⟩ := List.exists_cons_of_ne_nil hp
  obtain ⟨rest, hfirst, hrest⟩ := exists_firstWord? hw
  rw [ownType?, hnamed, if_neg Bool.false_ne_true, hw, List.tail_cons, ← hrest, Option.isNone_map,
    Option.isNone_iff_eq_none] at hnone
  rw [pieceName_of_words hnamed hw]
  rw [isUnnamed] at hnamed
  rw [resolve, hnamed, hfirst, hnone]
  rfl

/-- A piece is a function type without a name, has a type of its own or is a lone name. -/
theorem piece_cases (p : Text) :
    isUnnamed p = true ∨ (∃ type, ownType? p = some type) ∨ isLone p = true := by
  cases hp : isUnnamed p with
  | true => exact .inl rfl
  | false =>
    cases ht : ownType? p with
    | some type => exact .inr (.inl ⟨type, rfl⟩)
    | none => exact .inr (.inr (by rw [isLone, hp, ht]; rfl))

theorem declaredAfter_unnamed (h : isUnnamed p = true) : ∃ names : List Parameter,
    declaredAfter waiting ps = names ++ declared ps ∧ names.length = waiting.length ∧
      declaredAfter waiting (p :: ps) =
        names ++ { name := "(anonymous)".toList, type := some p } :: declared ps := by
  refine ⟨_, rfl, List.length_map _, ?_⟩
  have hnone : ownType? p = none := by rw [ownType?, if_pos h]
  rw [declaredAfter, List.findSome?_cons, hnone, declared, pieceName, if_pos h, pieceType?, if_pos h]

theorem declaredAfter_typed {type : Text} (h : ownType? p = some type) :
    declaredAfter waiting (p :: ps) =
      typed (waiting ++ [pieceName p]) type ++ declaredAfter [] ps := by
  have hnamed : isUnnamed p = false := by
    cases hp : isUnnamed p with
    | false => rfl
    | true => rw [ownType?, if_pos hp] at h; cases h
  rw [declaredAfter, declared, pieceType?, hnamed, if_neg Bool.false_ne_true, List.findSome?_cons, h,
    typed, List.map_append, List.append_assoc]
  rfl

theorem declaredAfter_lone (h : isLone p = true) :
    declaredAfter waiting (p :: ps) = declaredAfter (waiting ++ [pieceName p]) ps := by
  obtain ⟨hnamed, hnone⟩ := Bool.and_eq_true_iff.1 h
  have hnamed : isUnnamed p = false := by simpa using hnamed
  rw [declaredAfter, declared, pieceType?, hnamed, if_neg Bool.false_ne_true, List.findSome?_cons,
    Option.isNone_iff_eq_none.1 hnone, declaredAfter, List.map_append, List.append_assoc]
  rfl

end Piece

/-! ## Lists of pieces -/

/-- Pieces are read as what they declare, and as what the names that wait in front of them do, in some
    order. -/
theorem resolve_perm {ps : List Text} (h : ∀ p ∈ ps, words p ≠ []) (waiting : List Text) :
    (resolve waiting ps).Perm (declaredAfter waiting ps) := by
  induction ps generalizing waiting with
  | nil =>
    rw [resolve, declaredAfter, declared, List.append_nil]
    exact .refl _
  | cons p ps ih =>
    have hps (q : Text) (hq : q ∈ ps) := h q (List.mem_cons_of_mem p hq)
    rcases piece_cases p with hp | ⟨type, hp⟩ | hp
    · obtain ⟨names, hnames, -, hafter⟩ := declaredAfter_unnamed waiting ps hp
      rw [resolve_unnamed waiting ps hp, hafter]
      refine ((ih hps waiting).cons _).trans ?_
      rw [hnames]
      exact List.perm_middle.symm
    · rw [resolve_typed waiting ps hp, declaredAfter_typed waiting ps hp]
      exact (ih hps []).append_left _
    · rw [resolve_lone waiting ps hp (h p List.mem_cons_self), declaredAfter_lone waiting ps hp]
      exact ih hps _

/-- A lone name that is not followed by a function type without a name directly. -/
def Kept (p q : Text) : Prop := isLone p = true → isUnnamed q = false

instance (p q : Text) : Decidable (Kept p q) :=
  inferInstanceAs (Decidable (isLone p = true → isUnnamed q = false))

/-- Where no function type without a name comes while names wait, the order is that of the pieces. -/
theorem resolve_eq {ps : List Text} (h : ∀ p ∈ ps, words p ≠ []) (hkept : ps.IsChain Kept)
    {waiting : List Text} (hfirst : waiting = [] ∨ ∀ p ∈ ps.head?, isUnnamed p = false) :
    resolve waiting ps = declaredAfter waiting ps := by
  induction ps generalizing waiting with
  | nil => rw [resolve, declaredAfter, declared, List.append_nil]; rfl
  | cons p ps ih =>
    have hps (q : Text) (hq : q ∈ ps) := h q (List.mem_cons_of_mem p hq)
    obtain ⟨hnext, hchain⟩ := List.isChain_cons.1 hkept
    rcases piece_cases p with hp | ⟨type, hp⟩ | hp
    · -- no name can be waiting here
      have hnil : waiting = [] := by
        rcases hfirst with hnil | hnamed
        · exact hnil
        · rw [hnamed p rfl] at hp
          cases hp
      obtain ⟨names, hnames, hlength, hafter⟩ := declaredAfter_unnamed waiting ps hp
      rw [hnil, List.length_nil, List.length_eq_zero_iff] at hlength
      rw [resolve_unnamed waiting ps hp, hafter, ih hps hchain (.inl hnil), hnames, hlength]
      rfl
    · rw [resolve_typed waiting ps hp, declaredAfter_typed waiting ps hp, ih hps hchain (.inl rfl)]
    · rw [resolve_lone waiting ps hp (h p List.mem_cons_self), declaredAfter_lone waiting ps hp]
      exact ih hps hchain (.inr fun q hq => hnext q hq hp)

theorem words_of_mem_pieces {t p : Text} (h : p ∈ noAngle.pieces t) : words p ≠ [] := by
  have hpiece := (row_pieces usual_noAngle t).piece p h
  refine words_ne_nil (blank_eq_false_of_getLast? hpiece.ne_nil ?_)
  exact (trim_eq_self_iff.1 hpiece.trimmed).2

/-- Every piece of a parameter list gives one parameter, with its own name and type, and the parameters
    are in the order of the pieces, unless a lone name stands directly before a function type without a
    name. -/
theorem parameters_in_order (t : Text) :
    (Language.go.parameters t).length = (noAngle.pieces t).length ∧
      (Language.go.parameters t).Perm (declared (noAngle.pieces t)) ∧
      ((noAngle.pieces t).IsChain Kept →
        Language.go.parameters t = declared (noAngle.pieces t) ∧
          (Language.go.parameters t).map (·.name) = (noAngle.pieces t).map pieceName) := by
  have hwords : ∀ p ∈ noAngle.pieces t, words p ≠ [] := fun _ hp => words_of_mem_pieces hp
  have hperm := resolve_perm hwords []
  refine ⟨?_, hperm, fun hkept => ?_⟩
  · have hlength := congrArg List.length (map_name_declared (noAngle.pieces t))
    rw [List.length_map, List.length_map] at hlength
    exact hperm.length_eq.trans hlength
  · have heq : Language.go.parameters t = declared (noAngle.pieces t) :=
      resolve_eq hwords hkept (.inl rfl)
    exact ⟨heq, by rw [heq, map_name_declared]⟩

/-- Two names that share a type, and a function type without a name behind a named one. -/
def mixedList : Text := "a, b int, f func(x, y int) T, func(int) error".toList

theorem parameters_in_order_mixedList : (noAngle.pieces mixedList).IsChain Kept ∧
    (Language.go.parameters mixedList).map (·.name) =
      ["a".toList, "b".toList, "f".toList, "(anonymous)".toList] := by
  have hkept : (noAngle.pieces mixedList).IsChain Kept := by decide +kernel
  have hnames := ((parameters_in_order mixedList).2.2 hkept).2
  refine ⟨hkept, hnames.trans ?_⟩
  decide +kernel

/-- A type alone, and a function type without a name behind it, which comes out first. -/
theorem parameters_overtaken :
    noAngle.pieces "int, func(string) error".toList = ["int".toList, "func(string) error".toList] ∧
      (Language.go.parameters "int, func(string) error".toList).map (·.name) =
        ["(anonymous)".toList, "int".toList] ∧
      (Language.go.parameters "int, func(string) error".toList).map (·.name) ≠
        (noAngle.pieces "int, func(string) error".toList).map pieceName := by
  decide +kernel

end Synopsis.Go
