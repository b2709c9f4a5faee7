import Synopsis.Nesting.Depth
import Synopsis.Proofs.Text.Blank

/-!
# What a balanced span contains

`depthAfter` follows the depth of a span through a text and stops where the span is closed. It splits
at any place (`depthAfter_append`), so a span is cut where the depth of its inside comes back
(`balanced_of_depthAfter`), and `group?_eq_some_iff` says which texts are read as one parameter list.
Only brackets move the depth, so trimming and squeezing leave it alone.
-/

namespace Synopsis

open Text

/-- How many spans are open after a text that starts `depth` spans deep, unless the last is closed on
    the way. -/
def depthAfter (opener closer : Char) : (depth : Nat) → Text → Option Nat
  | d, [] => some d
  | d, x :: xs =>
    if x = opener then depthAfter opener closer (d + 1) xs
    else if x = closer then if d = 1 then none else depthAfter opener closer (d - 1) xs
    else depthAfter opener closer d xs

/-- The inside of a parenthesised list and the text after it: every parenthesis inside is matched, or
    some stay open to the very end. -/
def Grouped (inside rest : Text) : Prop :=
  ∃ k, depthAfter '(' ')' 1 inside = some (k + 1) ∧ (k = 0 ∨ rest = [])

section Depth

variable {opener closer : Char}

theorem depthAfter_append (d : Nat) (s t : Text) :
    depthAfter opener closer d (s ++ t) =
      (depthAfter opener closer d s).bind fun e => depthAfter opener closer e t := by
  fun_induction depthAfter opener closer d s <;> simp_all [depthAfter]

theorem spanFrom_of_depthAfter {d e : Nat} {s : Text} (h : depthAfter opener closer d s = some e)
    (t : Text) : spanFrom opener closer d (s ++ t) =
      (s ++ (spanFrom opener closer e t).1, (spanFrom opener closer e t).2) := by
  fun_induction depthAfter opener closer d s <;> simp_all [spanFrom, keep]

theorem spanFrom_close {d : Nat} {s : Text} (hne : opener ≠ closer)
    (h : depthAfter opener closer d s = some 1) (t : Text) :
    spanFrom opener closer d (s ++ closer :: t) = (s ++ [closer], t) := by
  rw [spanFrom_of_depthAfter h, spanFrom, if_neg (Ne.symm hne), if_pos rfl, if_pos rfl]

/-- A character that does not close the last span opens one, closes one or leaves the depth. -/
theorem depthAfter_of_cons {d e : Nat} {x : Char} {s : Text}
    (h : depthAfter opener closer (d + 1) (x :: s) = some e) :
    depthAfter opener closer ((if x = opener then d + 1 else if x = closer then d - 1 else d) + 1) s =
      some e := by
  rw [depthAfter] at h
  split at h
  · next hopen => rwa [if_pos hopen]
  · next hopen =>
    rw [if_neg hopen]
    split at h
    · next hclose =>
      rw [if_pos hclose]
      split at h
      · cases h
      · rwa [Nat.sub_add_cancel (by omega)]
    · next hclose => rwa [if_neg hclose]

/-- Where the last span is closed, the text before the close leaves one span open. -/
theorem exists_close {d : Nat} {t : Text} (h : depthAfter opener closer d t = none) :
    ∃ s r, t = s ++ closer :: r ∧ depthAfter opener closer d s = some 1 := by
  fun_induction depthAfter opener closer d t with
  | case1 => cases h
  | case2 d xs ih =>
    obtain ⟨s, r, rfl, hs⟩ := ih h
    exact ⟨opener :: s, r, rfl, by simpa [depthAfter] using hs⟩
  | case3 xs => exact ⟨[], xs, rfl, rfl⟩
  | case4 d xs h1 hne ih =>
    obtain ⟨s, r, rfl, hs⟩ := ih h
    exact ⟨closer :: s, r, rfl, by simpa [depthAfter, hne, h1] using hs⟩
  | case5 d x xs hx hc ih =>
    obtain ⟨s, r, rfl, hs⟩ := ih h
    exact ⟨x :: s, r, rfl, by simpa [depthAfter, hx, hc] using hs⟩

theorem depthAfter_pos {d e : Nat} {s : Text} (h : depthAfter opener closer d s = some e)
    (hd : 1 ≤ d) : 1 ≤ e := by
  fun_induction depthAfter opener closer d s with
  | case1 d => cases h; exact hd
  | case2 d xs ih => exact ih h (by omega)
  | case3 => cases h
  | case4 d xs h1 hne ih => exact ih h (by omega)
  | case5 d x xs hx hc ih => exact ih h hd

/-- A text that leaves its own spans balanced does so at any depth. -/
theorem depthAfter_add {d e : Nat} {s : Text} (h : depthAfter opener closer d s = some e)
    (hd : 1 ≤ d) (k : Nat) : depthAfter opener closer (d + k) s = some (e + k) := by
  fun_induction depthAfter opener closer d s with
  | case1 d => cases h; rfl
  | case2 d xs ih =>
    rw [depthAfter, if_pos rfl, Nat.add_right_comm, ih h (by omega)]
  | case3 => cases h
  | case4 d xs h1 hne ih =>
    rw [depthAfter, if_neg hne, if_pos rfl, if_neg (by omega), Nat.sub_add_comm hd, ih h (by omega)]
  | case5 d x xs hx hc ih => rw [depthAfter, if_neg hx, if_neg hc, ih h hd]

/-- What a text opens and closes is the change of depth. -/
theorem count_of_depthAfter (hne : opener ≠ closer) {d e : Nat} {s : Text}
    (h : depthAfter opener closer d s = some e) (hd : 1 ≤ d) :
    d + s.count opener = e + s.count closer := by
  fun_induction depthAfter opener closer d s with
  | case1 d => cases h; rfl
  | case2 d xs ih =>
    have := ih h (by omega)
    rw [List.count_cons_self, List.count_cons_of_ne hne]
    omega
  | case3 => cases h
  | case4 d xs h1 hx ih =>
    have := ih h (by omega)
    rw [List.count_cons_self, List.count_cons_of_ne (Ne.symm hne)]
    omega
  | case5 d x xs ho hc ih =>
    rw [List.count_cons_of_ne ho, List.count_cons_of_ne hc]
    exact ih h hd

/-- Where a balanced text opens a span, it closes it, and goes on balanced. -/
theorem exists_close_of_open (hne : opener ≠ closer) {s : Text}
    (h : depthAfter opener closer 1 (opener :: s) = some 1) :
    ∃ a b, s = a ++ closer :: b ∧ depthAfter opener closer 1 a = some 1 ∧
      depthAfter opener closer 1 b = some 1 := by
  rw [depthAfter, if_pos rfl] at h
  cases hs : depthAfter opener closer 1 s with
  | some e =>
    have hpos := depthAfter_pos hs (Nat.le_refl 1)
    rw [depthAfter_add hs (Nat.le_refl 1) 1, Option.some.injEq] at h
    omega
  | none =>
    obtain ⟨a, b, rfl, ha⟩ := exists_close hs
    refine ⟨a, b, rfl, ha, ?_⟩
    rw [depthAfter_append, depthAfter_add ha (Nat.le_refl 1) 1, Option.bind_some, depthAfter,
      if_neg (Ne.symm hne), if_pos rfl, if_neg (by decide)] at h
    exact h

theorem depthAfter_of_not_mem {s : Text} (ho : opener ∉ s) (hc : closer ∉ s) (d : Nat) :
    depthAfter opener closer d s = some d := by
  induction s with
  | nil => rfl
  | cons x xs ih =>
    simp only [List.mem_cons, not_or] at ho hc
    rw [depthAfter, if_neg (Ne.symm ho.1), if_neg (Ne.symm hc.1), ih ho.2 hc.2]

theorem suffix_balanced (opener closer : Char) (t : Text) : (balanced opener closer t).2 <:+ t :=
  ⟨_, balanced_append opener closer t⟩

theorem balanced_of_depthAfter {s : Text} (h : depthAfter opener closer 1 s = some 1)
    (hne : opener ≠ closer) (t : Text) :
    balanced opener closer (opener :: s ++ closer :: t) = (opener :: s ++ [closer], t) := by
  rw [balanced, if_pos (by simp), List.cons_append, spanFrom, if_pos rfl,
    spanFrom_of_depthAfter h, spanFrom, if_neg (Ne.symm hne), if_pos rfl, if_pos rfl]
  rfl

/-! ## Spans and what follows them -/

/-- A span that leaves something is cut at the same place when the text goes on. -/
theorem spanFrom_extend {d : Nat} {t : Text} (h : (spanFrom opener closer d t).2 ≠ []) (u : Text) :
    spanFrom opener closer d (t ++ u) =
      ((spanFrom opener closer d t).1, (spanFrom opener closer d t).2 ++ u) := by
  fun_induction spanFrom opener closer d t with
  | case1 => exact absurd rfl h
  | case2 d xs ih =>
    rw [List.cons_append, spanFrom, if_pos rfl, ih h]
    rfl
  | case3 xs hx => rw [List.cons_append, spanFrom, if_neg hx, if_pos rfl, if_pos rfl]
  | case4 d xs hx hd ih =>
    rw [List.cons_append, spanFrom, if_neg hx, if_pos rfl, if_neg hd, ih h]
    rfl
  | case5 d x xs hx hc ih =>
    rw [List.cons_append, spanFrom, if_neg hx, if_neg hc, ih h]
    rfl

theorem balanced_extend {t : Text} (h : (balanced opener closer t).2 ≠ []) (u : Text) :
    balanced opener closer (t ++ u) =
      ((balanced opener closer t).1, (balanced opener closer t).2 ++ u) := by
  cases t with
  | nil => simp [balanced] at h
  | cons c t =>
    by_cases hc : c = opener
    · have hspan (v : Text) : balanced opener closer (c :: v) = spanFrom opener closer 0 (c :: v) :=
        if_pos (congrArg some hc)
      rw [hspan] at h
      rw [List.cons_append, hspan, hspan]
      exact spanFrom_extend h u
    · have hnone (v : Text) : balanced opener closer (c :: v) = ([], c :: v) :=
        if_neg (fun he => hc (Option.some.inj he))
      rw [List.cons_append, hnone, hnone]
      rfl

/-! ## Inside a span -/

/-- A span that is not closed takes all that is left. -/
theorem balanced_of_open {z : Text} {e : Nat} (h : depthAfter opener closer 1 z = some e) :
    balanced opener closer (opener :: z) = (opener :: z, []) := by
  have hall := spanFrom_of_depthAfter h []
  rw [List.append_nil] at hall
  rw [balanced, if_pos List.head?_cons, spanFrom, if_pos rfl, hall]
  simp [spanFrom, keep]

/-- What stands between the delimiters of a span never closes it; if the span is not closed at all, its
    last character stands for the closer. -/
theorem exists_inside_of_balanced (hne : opener ≠ closer) {z : Text}
    (h : unwrap (balanced opener closer (opener :: z)).1 ≠ []) :
    (∃ c, z = unwrap (balanced opener closer (opener :: z)).1 ++
      c :: (balanced opener closer (opener :: z)).2) ∧
    ∃ e, depthAfter opener closer 1 (unwrap (balanced opener closer (opener :: z)).1) = some e := by
  cases hz : depthAfter opener closer 1 z with
  | none =>
    obtain ⟨s, r, rfl, hs⟩ := exists_close hz
    have hspan := balanced_of_depthAfter hs hne r
    have hinside : unwrap (opener :: s ++ [closer]) = s := by simp [unwrap]
    rw [List.cons_append] at hspan
    rw [hspan, hinside]
    exact ⟨⟨closer, rfl⟩, 1, hs⟩
  | some e =>
    rw [balanced_of_open hz] at h ⊢
    have hinside : unwrap (opener :: z) = z.dropLast := rfl
    rw [hinside] at h ⊢
    have hlast : z ≠ [] := by
      rintro rfl
      exact h rfl
    have hcut := List.dropLast_concat_getLast hlast
    refine ⟨⟨z.getLast hlast, hcut.symm⟩, ?_⟩
    rw [← hcut, depthAfter_append] at hz
    obtain ⟨f, hf, -⟩ := Option.bind_eq_some_iff.1 hz
    exact ⟨f, hf⟩

/-! ## Only brackets count -/

theorem depthAfter_eq_filter (d : Nat) (t : Text) :
    depthAfter opener closer d t =
      depthAfter opener closer d (t.filter fun c => c == opener || c == closer) := by
  fun_induction depthAfter opener closer d t <;> simp_all [depthAfter]

/-- The depth is the same for texts with the same brackets in the same order. -/
theorem depthAfter_congr {s t : Text}
    (h : (s.filter fun c => c == opener || c == closer) =
      t.filter fun c => c == opener || c == closer) (d : Nat) :
    depthAfter opener closer d s = depthAfter opener closer d t := by
  rw [depthAfter_eq_filter, h, ← depthAfter_eq_filter]

theorem bracket_of_blank (ho : isBlank opener = false) (hc : isBlank closer = false) {c : Char}
    (h : isBlank c = true) : (c == opener || c == closer) = false := by
  simp [ne_of_blank h ho, ne_of_blank h hc]

theorem depthAfter_collapse (ho : isBlank opener = false) (hc : isBlank closer = false) (d : Nat)
    (t : Text) : depthAfter opener closer d (collapse t) = depthAfter opener closer d t :=
  depthAfter_congr (filter_collapse (fun _ => bracket_of_blank ho hc) t) d

end Depth

/-! ## Depth tables -/

theorem length_braceDepthsFrom (d : Nat) (t : Text) : (braceDepthsFrom d t).length = t.length := by
  fun_induction braceDepthsFrom d t <;> simp_all

theorem braceDepthsFrom_append {d e : Nat} {s : Text}
    (h : depthAfter '{' '}' (d + 1) s = some (e + 1)) (t : Text) :
    braceDepthsFrom d (s ++ t) = braceDepthsFrom d s ++ braceDepthsFrom e t := by
  induction s generalizing d with
  | nil =>
    obtain rfl : d = e := by simpa [depthAfter] using h
    rfl
  | cons x s ih =>
    have hrest := ih (depthAfter_of_cons h)
    rw [List.cons_append, braceDepthsFrom, braceDepthsFrom]
    split
    · next hx => rw [if_pos hx] at hrest; rw [hrest, List.cons_append]
    · next hx =>
      rw [if_neg hx] at hrest
      split
      · next hx' => rw [if_pos hx'] at hrest; rw [hrest, List.cons_append]
      · next hx' => rw [if_neg hx'] at hrest; rw [hrest, List.cons_append]

/-- Where a table says top level, what precedes closes all it opens, if it closes no more than that. -/
theorem depthAfter_of_topLevelAt {s t : Text} {e : Nat} (h : depthAfter '{' '}' 1 (s ++ t) = some e)
    {c : Char} (hc : t.head? = some c) (hbrace : c ≠ '{')
    (htop : topLevelAt (braceDepths (s ++ t)) s.length = true) : depthAfter '{' '}' 1 s = some 1 := by
  rw [depthAfter_append] at h
  obtain ⟨f, hf, -⟩ := Option.bind_eq_some_iff.1 h
  obtain ⟨g, rfl⟩ : ∃ g, f = g + 1 := ⟨f - 1, by have := depthAfter_pos hf (Nat.le_refl 1); omega⟩
  obtain ⟨u, rfl⟩ := List.head?_eq_some_iff.1 hc
  have hhere : (braceDepthsFrom g (c :: u))[0]? = some g := by
    rw [braceDepthsFrom, if_neg hbrace]
    split <;> rfl
  rw [topLevelAt, braceDepths, braceDepthsFrom_append hf, ← length_braceDepthsFrom 0 s,
    List.getElem?_append_right (Nat.le_refl _), Nat.sub_self, hhere] at htop
  obtain rfl : g = 0 := by simpa using htop
  exact hf

/-! ## Parameter lists -/

theorem unwrap_cons_concat (o c : Char) (s : Text) : unwrap (o :: s ++ [c]) = s := by
  simp [unwrap]

theorem group?_cons (u : Text) :
    group? ('(' :: u) =
      if ('(' :: (spanFrom '(' ')' 1 u).1).getLast? = some ')' then
        some (unwrap ('(' :: (spanFrom '(' ')' 1 u).1), (spanFrom '(' ')' 1 u).2)
      else none := rfl

theorem snd_parens_of_group? {t s r : Text} (h : group? t = some (s, r)) : (parens t).2 = r := by
  unfold group? at h
  dsimp only at h
  split at h
  · exact (Prod.mk.inj (Option.some.inj h)).2
  · cases h

theorem group?_of_grouped {s r : Text} (h : Grouped s r) :
    group? ('(' :: s ++ ')' :: r) = some (s, r) := by
  obtain ⟨k, hdep, hk⟩ := h
  have hspan : spanFrom '(' ')' 1 (s ++ ')' :: r) = (s ++ [')'], r) := by
    rcases Nat.eq_zero_or_pos k with rfl | hpos
    · exact spanFrom_close (by decide) hdep r
    · obtain rfl : r = [] := hk.resolve_left (by omega)
      have hopen : depthAfter '(' ')' 1 (s ++ [')']) = some k := by
        simp [depthAfter_append, hdep, depthAfter, Nat.ne_of_gt hpos]
      simpa [spanFrom] using spanFrom_of_depthAfter hopen []
  rw [List.cons_append, group?_cons, hspan, ← List.cons_append,
    if_pos List.getLast?_concat, unwrap_cons_concat]

/-- A text is read as a list exactly when it opens one that is closed, or one that happens to end in a
    parenthesis. -/
theorem group?_eq_some_iff {t s r : Text} :
    group? t = some (s, r) ↔ t = '(' :: s ++ ')' :: r ∧ Grouped s r := by
  constructor
  · intro h
    cases t with
    | nil => simp [group?, parens, balanced] at h
    | cons c u =>
      by_cases hopen : c = '('
      · subst hopen
        cases hu : depthAfter '(' ')' 1 u with
        | none =>
          obtain ⟨s', r', rfl, hs'⟩ := exists_close hu
          have hgroup : Grouped s' r' := ⟨0, hs', .inl rfl⟩
          rw [← List.cons_append, group?_of_grouped hgroup] at h
          obtain ⟨rfl, rfl⟩ := Prod.mk.inj (Option.some.inj h)
          exact ⟨rfl, hgroup⟩
        | some e =>
          have hspan : spanFrom '(' ')' 1 u = (u, []) := by
            simpa [spanFrom] using spanFrom_of_depthAfter hu []
          rw [group?_cons, hspan] at h
          split at h
          · next hlast =>
            obtain ⟨rfl, rfl⟩ := Prod.mk.inj (Option.some.inj h)
            obtain ⟨v, hv⟩ := List.getLast?_eq_some_iff.1 hlast
            cases v with
            | nil => simp at hv
            | cons d v =>
              rw [List.cons_append] at hv
              obtain ⟨rfl, rfl⟩ := List.cons.inj hv
              rw [depthAfter_append] at hu
              obtain ⟨f, hf, hclose⟩ := Option.bind_eq_some_iff.1 hu
              have hpos := depthAfter_pos hf (Nat.le_refl 1)
              rw [← List.cons_append, unwrap_cons_concat]
              exact ⟨rfl, f - 1, by rw [hf]; congr 1; omega, .inr rfl⟩
          · cases h
      · simp [group?, parens, balanced, hopen] at h
  · rintro ⟨rfl, h⟩
    exact group?_of_grouped h

/-- What is read as a list opens one. -/
theorem head?_of_group? {t s r : Text} (h : group? t = some (s, r)) : t.head? = some '(' := by
  rw [(group?_eq_some_iff.1 h).1]
  rfl

theorem Grouped.collapse {s r r' : Text} (h : Grouped s r) (hr : r = [] → r' = []) :
    Grouped (collapse s) r' := by
  obtain ⟨k, hdep, hk⟩ := h
  exact ⟨k, by rw [depthAfter_collapse (by decide) (by decide), hdep], hk.imp_right hr⟩

theorem Grouped.of_balanced {s : Text} (h : depthAfter '(' ')' 1 s = some 1) (r : Text) :
    Grouped s r := ⟨0, h, .inl rfl⟩

end Synopsis
