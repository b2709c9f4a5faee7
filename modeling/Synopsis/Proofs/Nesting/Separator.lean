import Mathlib.Order.Bounds.Basic
import Synopsis.Proofs.Nesting.Counting

/-!
# Separators outside brackets

Where a text is split, and where a search stops. A character other than a bracket is a separator where all
brackets in front of it are closed (`mem_splitPoints_iff`), by the counts and not by the state of a reader.
Results:

1. `piecesOf_stable`: splitting a list loses its top-level commas and blanks and nothing else, and what it
   gives is split no further, neither alone nor joined again, collapsed or not.
2. `offsetOf?_isLeast`: a search finds the first place where the splitter cuts, as long as no closer is a
   stray one. The splitter counts each kind of bracket for itself and the search counts them all together;
   what relates them along a text is that the one count is the length of the splitter's list
   (`length_openAfter_concat`).
-/

namespace Synopsis.Brackets

open Text

/-- The part of a text behind `front` without the occurrences of a character outside brackets. -/
def withoutTopFrom (b : Brackets) (x : Char) : (front : Text) → Text → Text
  | _, [] => []
  | s, c :: t =>
    if c = x ∧ b.AllClosed s then b.withoutTopFrom x (s ++ [c]) t
    else c :: b.withoutTopFrom x (s ++ [c]) t

/-- A text without the occurrences of a character outside brackets. -/
def withoutTop (b : Brackets) (x : Char) (t : Text) : Text := b.withoutTopFrom x [] t

/-- The offsets of the separators between stretches, the first of which starts at `offset`. -/
def seams {α : Type} : (offset : Nat) → List (List α) → List Nat
  | k, s :: r :: rs => (k + s.length) :: seams (k + s.length + 1) (r :: rs)
  | _, _ => []

/-- The offsets at which a text is split. -/
def splitPoints (b : Brackets) (x : Char) (t : Text) : List Nat := seams 0 (b.stretches (· == x) t)

/-! ## Brackets given as text -/

section Written

variable {b : Brackets} {pairs : Text}

/-- A closer that counts answers an opener that counts, so usual brackets are always known. -/
theorem fault?_of_usual (hb : b.Usual) (prev : Option Char) (t : Text) : b.fault? prev t = none := by
  induction t generalizing prev with
  | nil => rfl
  | cons c t ih =>
    rw [fault?]
    split
    · next hc =>
      obtain ⟨p, hp, rfl, -⟩ := exists_of_closesHere hc
      simp only [(closer_of_mem_all p (hb p hp)).1, if_pos (opens_of_mem hp)]
      exact ih (some p.2)
    · exact ih (some c)

theorem spells_singleton (x : Char) : spells [x] = (· == x) := by
  funext c
  rw [spells, Bool.eq_iff_iff, beq_iff_eq, beq_iff_eq, List.cons.injEq, and_iff_left rfl, eq_comm]

theorem piecesOf_eq_ok (hpairs : ofText? pairs ⟨[]⟩ = .ok b) (hb : b.Usual) (x : Char) (t : Text) :
    piecesOf [x] pairs t = .ok (b.piecesBy (· == x) t) := by
  have hfault := fault?_of_usual hb none t
  simp only [piecesOf, hpairs, hfault, spells_singleton, bind, Except.bind]

theorem offsetOf?_eq_ok (hpairs : ofText? pairs ⟨[]⟩ = .ok b) (x : Char) (t : Text) :
    offsetOf? [x] pairs t = .ok ((b.breakTop? x t).map (·.1.length)) := by
  rw [offsetOf?, hpairs, spells_singleton]
  rfl

end Written

/-! ## Seams -/

section Seams

variable {α : Type}

/-- Splitting goes on one offset further behind every element, and cuts at those that separate. -/
theorem seams_splitOnP_cons (p : α → Bool) (k : Nat) (a : α) (l : List α) :
    seams k ((a :: l).splitOnP p) =
      if p a then k :: seams (k + 1) (l.splitOnP p) else seams (k + 1) (l.splitOnP p) := by
  obtain ⟨r, rs, hr⟩ := List.exists_cons_of_ne_nil (List.splitOnP_ne_nil p l)
  rw [List.splitOnP_cons_eq_if_modifyHead, hr]
  split
  · rfl
  · cases rs with
    | nil => rfl
    | cons q rs =>
      rw [List.modifyHead_cons, seams, seams, List.length_cons, Nat.add_right_comm k 1]
      rfl

theorem seams_map {β : Type} (f : α → β) (k : Nat) (ss : List (List α)) :
    seams k (ss.map fun s => s.map f) = seams k ss := by
  induction ss generalizing k with
  | nil => rfl
  | cons s ss ih =>
    cases ss with
    | nil => rfl
    | cons r rs => rw [List.map_cons, List.map_cons, seams, seams, List.length_map, ← List.map_cons, ih]

theorem le_of_mem_seams {k i : Nat} {ss : List (List α)} (h : i ∈ seams k ss) : k ≤ i := by
  fun_induction seams k ss with
  | case1 k s r rs ih =>
    rcases List.mem_cons.1 h with rfl | h
    · omega
    · have := ih h
      omega
  | case2 => cases h

theorem pairwise_seams (k : Nat) (ss : List (List α)) : (seams k ss).Pairwise (· < ·) := by
  fun_induction seams k ss with
  | case1 k s r rs ih => exact List.pairwise_cons.2 ⟨fun i hi => le_of_mem_seams hi, ih⟩
  | case2 => exact List.Pairwise.nil

/-- The first of increasing numbers is the least. -/
theorem head?_eq_some_iff_isLeast {l : List Nat} (h : l.Pairwise (· < ·)) {i : Nat} :
    l.head? = some i ↔ IsLeast {j | j ∈ l} i := by
  cases l with
  | nil => exact iff_of_false (by simp) fun hi => absurd hi.1 List.not_mem_nil
  | cons a l =>
    have hleast : IsLeast {j | j ∈ a :: l} a := by
      refine ⟨List.mem_cons_self, fun j hj => ?_⟩
      rcases List.mem_cons.1 hj with rfl | hj
      · exact Nat.le_refl j
      · exact Nat.le_of_lt ((List.pairwise_cons.1 h).1 j hj)
    rw [List.head?_cons, Option.some.injEq]
    exact ⟨fun he => he ▸ hleast, hleast.unique⟩

end Seams

/-! ## Where the splitter cuts -/

section Cuts

variable {b : Brackets} {x : Char}

/-- The splitter cuts at a character exactly when it is the separator and all in front of it is closed. -/
theorem separates_iff (hb : b.Usual) (ho : b.opens x = false) (hc : b.closes x = false) {s : Text}
    {c : Char} : ((b.step (b.openAfter [] none s) s.getLast? c).isEmpty && c == x) = true ↔
      c = x ∧ b.AllClosed s := by
  rw [Bool.and_eq_true, beq_iff_eq, allClosed_iff hb, and_comm]
  refine and_congr_right fun he => ?_
  rw [he, step_of_other ho hc, List.isEmpty_iff]

/-- The offsets at which the part of a text behind `front` is split. -/
def splitPointsFrom (b : Brackets) (x : Char) (front t : Text) : List Nat :=
  seams front.length
    ((b.marks (b.openAfter [] none front) front.getLast? t).splitOnP fun m => m.2 && m.1 == x)

theorem splitPoints_eq (t : Text) : b.splitPoints x t = b.splitPointsFrom x [] t :=
  seams_map Prod.fst 0 _

theorem splitPointsFrom_cons (hb : b.Usual) (ho : b.opens x = false) (hc : b.closes x = false)
    (s : Text) (c : Char) (t : Text) : b.splitPointsFrom x s (c :: t) =
      if c = x ∧ b.AllClosed s then s.length :: b.splitPointsFrom x (s ++ [c]) t
      else b.splitPointsFrom x (s ++ [c]) t := by
  rw [splitPointsFrom, marks, seams_splitOnP_cons, splitPointsFrom, openAfter_concat,
    List.getLast?_concat, List.length_append, List.length_singleton]
  exact if_congr (separates_iff hb ho hc) rfl rfl

theorem mem_splitPointsFrom_iff (hb : b.Usual) (ho : b.opens x = false) (hc : b.closes x = false)
    {s t : Text} {i : Nat} : i ∈ b.splitPointsFrom x s t ↔
      ∃ a u, t = a ++ x :: u ∧ i = (s ++ a).length ∧ b.AllClosed (s ++ a) := by
  induction t generalizing s with
  | nil => simp [splitPointsFrom, marks, seams]
  | cons c t ih =>
    have hlater : i ∈ b.splitPointsFrom x (s ++ [c]) t ↔
        ∃ a u, t = a ++ x :: u ∧ i = (s ++ c :: a).length ∧ b.AllClosed (s ++ c :: a) := by
      simp only [ih, List.append_assoc, List.singleton_append]
    rw [splitPointsFrom_cons hb ho hc]
    constructor
    · intro h
      split at h
      · next hcut =>
        rcases List.mem_cons.1 h with rfl | h
        · exact ⟨[], t, by rw [hcut.1]; rfl, by rw [List.append_nil], by rw [List.append_nil]; exact hcut.2⟩
        · obtain ⟨a, u, rfl, hi, hclosed⟩ := hlater.1 h
          exact ⟨c :: a, u, rfl, hi, hclosed⟩
      · obtain ⟨a, u, rfl, hi, hclosed⟩ := hlater.1 h
        exact ⟨c :: a, u, rfl, hi, hclosed⟩
    · rintro ⟨a, u, hcut, hi, hclosed⟩
      cases a with
      | nil =>
        obtain ⟨rfl, rfl⟩ := List.cons.inj hcut
        rw [List.append_nil] at hi hclosed
        rw [if_pos ⟨rfl, hclosed⟩, hi]
        exact List.mem_cons_self
      | cons d a =>
        obtain ⟨rfl, rfl⟩ := List.cons.inj hcut
        have hmem := hlater.2 ⟨a, u, rfl, hi, hclosed⟩
        split
        · exact List.mem_cons_of_mem _ hmem
        · exact hmem

/-- A text is split at the places of the separator in front of which all brackets are closed. -/
theorem mem_splitPoints_iff (hb : b.Usual) (ho : b.opens x = false) (hc : b.closes x = false)
    {t : Text} {i : Nat} : i ∈ b.splitPoints x t ↔
      ∃ s u, t = s ++ x :: u ∧ i = s.length ∧ b.AllClosed s := by
  rw [splitPoints_eq, mem_splitPointsFrom_iff hb ho hc]
  rfl

/-! ## Splitting a list -/

theorem flatten_stretchesFrom (hb : b.Usual) (s t : Text) :
    (b.stretchesFrom (b.openAfter [] none s) s.getLast? t).flatten = b.withoutTopFrom ',' s t := by
  induction t generalizing s with
  | nil => rfl
  | cons c t ih =>
    have hcut := separates_iff (x := ',') (s := s) (c := c) hb (opens_of_all hb (by decide))
      (closes_of_all hb (by decide))
    have hrest := ih (s ++ [c])
    rw [openAfter_concat, List.getLast?_concat] at hrest
    rw [stretchesFrom_cons, withoutTopFrom]
    by_cases htop : c = ',' ∧ b.AllClosed s
    · rw [if_pos (hcut.2 htop), if_pos htop, ← hrest]
      rfl
    · obtain ⟨r, rs, hr⟩ := List.exists_cons_of_ne_nil
        (stretchesFrom_ne_nil (b := b) (b.step (b.openAfter [] none s) s.getLast? c) (some c) t)
      rw [if_neg (mt hcut.1 htop), if_neg htop, ← hrest, hr]
      rfl

/-- Trimming and dropping what is blank loses nothing but blanks. -/
theorem filter_flatten_trimmed {q : Char → Bool} (hq : ∀ c, isBlank c = true → q c = false)
    (ss : List Text) :
    ((ss.map trim).filter (!·.isEmpty)).flatten.filter q = ss.flatten.filter q := by
  induction ss with
  | nil => rfl
  | cons s ss ih =>
    rw [List.map_cons, List.flatten_cons, List.filter_append, ← ih, ← filter_trim hq (t := s)]
    cases htrim : trim s with
    | nil => rfl
    | cons c u => rw [List.filter_cons_of_pos rfl, List.flatten_cons, List.filter_append]

/-- A list has the characters of its pieces and its top-level commas, blanks apart. -/
theorem filter_pieces (hb : b.Usual) (t : Text) :
    (b.pieces t).flatten.filter (!isBlank ·) = (b.withoutTop ',' t).filter (!isBlank ·) := by
  have hflat := flatten_stretchesFrom hb [] t
  rw [pieces_eq, filter_flatten_trimmed (fun c hc => by rw [hc]; rfl), withoutTop, ← hflat]
  rfl

theorem pieces_piece (hb : b.Usual) {t p : Text} (hp : p ∈ b.pieces t) : b.pieces p = [p] := by
  have hpiece := (row_pieces hb t).piece p hp
  rw [pieces_of_solid hpiece.solid, hpiece.blank_eq_false, if_neg Bool.false_ne_true, hpiece.trimmed]

end Cuts

/-- Splitting a list loses nothing but blanks and its top-level commas, splits no piece further, and
    gives the same pieces when they are joined again, collapsed or not. -/
theorem piecesOf_stable {pairs : Text} {b : Brackets} (hpairs : ofText? pairs ⟨[]⟩ = .ok b)
    (hb : b.Usual) (t : Text) :
    ∃ ps, piecesOf [','] pairs t = .ok ps ∧
      ps.flatten.filter (!isBlank ·) = (b.withoutTop ',' t).filter (!isBlank ·) ∧
      (∀ p ∈ ps, piecesOf [','] pairs p = .ok [p]) ∧
      piecesOf [','] pairs (join ", " ps) = .ok ps ∧
      piecesOf [','] pairs (join ", " (ps.map collapse)) = .ok (ps.map collapse) := by
  have hof (t : Text) : piecesOf [','] pairs t = .ok (b.pieces t) := piecesOf_eq_ok hpairs hb ',' t
  have hrow : b.Row (b.pieces t) := row_pieces hb t
  refine ⟨b.pieces t, hof t, filter_pieces hb t, fun p hp => ?_, ?_, ?_⟩
  · rw [hof, pieces_piece hb hp]
  · rw [hof, pieces_join hb hrow]
  · rw [hof, pieces_join hb (hrow.map_collapse hb)]

/-- A list with an arrow inside brackets, a closer too many, an empty piece and a bracket left open. -/
def looseList : Text := "f: F<i32 -> u8, T>, b ] ,, c:  (d, e".toList

/-- The pieces of the loose list when angle brackets count. -/
def looseList.pieces : List Text :=
  ["f: F<i32 -> u8, T>".toList, "b ]".toList, "c:  (d, e".toList]

theorem piecesOf_stable_looseList :
    ofText? "()[]\x7b\x7d<>".toList ⟨[]⟩ = .ok all ∧ all.Usual ∧
      piecesOf [','] "()[]\x7b\x7d<>".toList looseList = .ok looseList.pieces ∧
      looseList.pieces.flatten.filter (!isBlank ·) =
        (all.withoutTop ',' looseList).filter (!isBlank ·) ∧
      (∀ p ∈ looseList.pieces, piecesOf [','] "()[]\x7b\x7d<>".toList p = .ok [p]) ∧
      piecesOf [','] "()[]\x7b\x7d<>".toList (join ", " looseList.pieces) = .ok looseList.pieces ∧
      piecesOf [','] "()[]\x7b\x7d<>".toList (join ", " (looseList.pieces.map collapse)) =
        .ok (looseList.pieces.map collapse) := by
  have hbrackets : ofText? "()[]\x7b\x7d<>".toList ⟨[]⟩ = .ok all := rfl
  have hpieces : piecesOf [','] "()[]\x7b\x7d<>".toList looseList = .ok looseList.pieces := by decide
  obtain ⟨ps, hps, hstable⟩ := piecesOf_stable hbrackets usual_all looseList
  obtain rfl : ps = looseList.pieces := Except.ok.inj (hps.symm.trans hpieces)
  exact ⟨hbrackets, usual_all, hps, hstable⟩

/-- The same holds of the list without angle brackets. -/
example : ofText? "()[]\x7b\x7d".toList ⟨[]⟩ = .ok noAngle ∧ noAngle.Usual := ⟨rfl, usual_noAngle⟩

/-! ## Searching -/

section Search

variable {b : Brackets} {x : Char}

/-- Without stray closers, the one count of the search is the number of open brackets. -/
theorem length_openAfter_concat (hb : b.Usual) {s t : Text} {c : Char}
    (h : b.StrayFree (s ++ c :: t)) :
    (if b.opens c then (b.openAfter [] none s).length + 1
      else if b.closesHere s.getLast? c then (b.openAfter [] none s).length - 1
      else (b.openAfter [] none s).length) = (b.openAfter [] none (s ++ [c])).length := by
  rw [openAfter_concat]
  rcases step_cases hb (b.openAfter [] none s) s.getLast? c with
    ⟨ho, hstep⟩ | ⟨p, hp, rfl, ho, hc, hstep⟩ | ⟨ho, hc, hstep⟩
  · rw [hstep, if_pos ho, List.length_cons]
  · obtain ⟨q, hq, hkind, hmem⟩ := h.exists_opener hb hc
    have hopener : some q.1 = some p.1 := by
      rw [← (closer_of_mem_all q (hb q hq)).1, hkind, (closer_of_mem_all p (hb p hp)).1]
    rw [Option.some.inj hopener] at hmem
    rw [hstep, ho, hc, if_neg Bool.false_ne_true, if_pos rfl, List.length_erase_of_mem hmem]
  · rw [hstep, ho, hc, if_neg Bool.false_ne_true, if_neg Bool.false_ne_true]

/-- A search behind `front` finds the first offset at which the splitter cuts there. -/
theorem map_breakTopFrom (hb : b.Usual) (ho : b.opens x = false) (hc : b.closes x = false)
    {s t : Text} (h : b.StrayFree (s ++ t)) :
    (b.breakTopFrom (· == x) (b.openAfter [] none s).length s.getLast? t).map
      (fun cut => s.length + cut.1.length) = (b.splitPointsFrom x s t).head? := by
  induction t generalizing s with
  | nil => rfl
  | cons c t ih =>
    have hstop : (c == x && (b.openAfter [] none s).length == 0) = true ↔ c = x ∧ b.AllClosed s := by
      rw [Bool.and_eq_true, beq_iff_eq, beq_iff_eq, List.length_eq_zero_iff, allClosed_iff hb]
    rw [breakTopFrom_cons, splitPointsFrom_cons hb ho hc]
    by_cases htop : c = x ∧ b.AllClosed s
    · rw [if_pos (hstop.2 htop), if_pos htop]
      rfl
    · have hrest := ih (s := s ++ [c]) (by rwa [List.append_assoc])
      rw [List.getLast?_concat, List.length_append, List.length_singleton] at hrest
      rw [if_neg (mt hstop.1 htop), if_neg htop, length_openAfter_concat hb h, ← hrest,
        Option.map_map]
      congr 1
      funext cut
      rw [Function.comp_apply, keep, List.length_cons, Nat.add_assoc, Nat.add_comm 1]

/-- A search finds the first offset at which the splitter cuts. -/
theorem map_breakTop? (hb : b.Usual) (ho : b.opens x = false) (hc : b.closes x = false) {t : Text}
    (h : b.StrayFree t) : (b.breakTop? x t).map (·.1.length) = (b.splitPoints x t).head? := by
  have hsearch : (b.breakTop? x t).map (fun cut => 0 + cut.1.length) =
      (b.splitPointsFrom x [] t).head? := map_breakTopFrom (s := []) hb ho hc h
  simp only [Nat.zero_add] at hsearch
  rw [splitPoints_eq, hsearch]

end Search

/-- In a text without stray closers the search for a character other than a bracket finds nothing exactly
    when the splitter does not cut at it, and else the first offset at which the splitter does. -/
theorem offsetOf?_isLeast {pairs : Text} {b : Brackets} (hpairs : ofText? pairs ⟨[]⟩ = .ok b)
    (hb : b.Usual) {x : Char} (ho : b.opens x = false) (hc : b.closes x = false) {t : Text}
    (h : b.StrayFree t) :
    (offsetOf? [x] pairs t = .ok none ↔ ∀ i, i ∉ b.splitPoints x t) ∧
      ∀ i, offsetOf? [x] pairs t = .ok (some i) ↔ IsLeast {j | j ∈ b.splitPoints x t} i := by
  have hsearch : offsetOf? [x] pairs t = .ok (b.splitPoints x t).head? := by
    rw [offsetOf?_eq_ok hpairs, map_breakTop? hb ho hc h]
  refine ⟨?_, fun i => ?_⟩
  · rw [hsearch, Except.ok.injEq, List.head?_eq_none_iff, List.eq_nil_iff_forall_not_mem]
  · rw [hsearch, Except.ok.injEq]
    exact head?_eq_some_iff_isLeast (pairwise_seams 0 _)

/-- Brackets that cross, an arrow behind them, and a target inside brackets in front of the one found. -/
theorem offsetOf?_isLeast_crossedBrackets :
    ofText? "()[]\x7b\x7d<>".toList ⟨[]⟩ = .ok all ∧ all.Usual ∧ all.opens ':' = false ∧
      all.closes ':' = false ∧ all.StrayFree "<(>) -> [a: b]: c".toList ∧
      IsLeast {i | i ∈ all.splitPoints ':' "<(>) -> [a: b]: c".toList} 14 := by
  have hbrackets : ofText? "()[]\x7b\x7d<>".toList ⟨[]⟩ = .ok all := rfl
  have hfree : all.StrayFree "<(>) -> [a: b]: c".toList := by decide
  have hfound : offsetOf? [':'] "()[]\x7b\x7d<>".toList "<(>) -> [a: b]: c".toList = .ok (some 14) := by
    decide
  exact ⟨hbrackets, usual_all, rfl, rfl, hfree,
    ((offsetOf?_isLeast hbrackets usual_all rfl rfl hfree).2 14).1 hfound⟩

/-- A stray closer takes a bracket of another kind off the count of the search, and off no list of the
    splitter. -/
example : offsetOf? [':'] "()[]\x7b\x7d<>".toList "(]:".toList = .ok (some 2) ∧
    all.splitPoints ':' "(]:".toList = [] := by decide

end Synopsis.Brackets
