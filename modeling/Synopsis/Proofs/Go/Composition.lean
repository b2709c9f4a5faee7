import Synopsis.Proofs.Fragment
import Synopsis.Proofs.Go.Recovery

/-!
# Go: the fragments of two sources in a row

A window is decided by the text it runs through: one that leaves something behind it ends at the same
place whatever is written after the text (`windowFrom_extend`), and no word `func` goes across a line end.
Lines in which every window is ended and no comment is left open therefore have their fragments to
themselves (`fragments_append_of_ended`).
-/

namespace Synopsis.Go

open Text

/-- A window that was ended: just behind the brace of a body or before a line end, and not by the end of
    the text. -/
def Ended (s : Site Text) : Prop := s.found.getLast? = some '{' ∨ s.rest.head? = some '\n'

instance (s : Site Text) : Decidable (Ended s) :=
  inferInstanceAs (Decidable (s.found.getLast? = some '{' ∨ s.rest.head? = some '\n'))

/-! ## One window -/

/-- A window that leaves something ends at the same place when the text goes on. -/
theorem windowFrom_extend {n : Nat} {before : Text} {p s : Nat} {closed : Bool} {t : Text}
    (h : (windowFrom n before p s closed t).2 ≠ []) (u : Text) :
    windowFrom n before p s closed (t ++ u) =
      ((windowFrom n before p s closed t).1, (windowFrom n before p s closed t).2 ++ u) := by
  fun_induction windowFrom n before p s closed t with
  | case1 => exact absurd rfl h
  | case2 before p s closed n c cs ih =>
    rw [List.cons_append, windowFrom]
    exact congrArg (keep c) (ih h)
  | case3 before p s closed c cs hstop => rw [List.cons_append, windowFrom, if_pos hstop]
  | case4 before p s closed c cs hline hbrace htype ih =>
    -- Braces that never close would take the window to the end of the text.
    have hopen : (braces (c :: cs)).2 ≠ [] := by
      intro hnil
      have hhalves : (braces (c :: cs)).1 ++ (braces (c :: cs)).2 = c :: cs :=
        balanced_append '{' '}' (c :: cs)
      rw [hnil, List.append_nil] at hhalves
      have hskip := windowFrom_skip cs [] (c :: before) p s closed
      rw [List.append_nil] at hskip
      rw [hhalves, List.length_cons, Nat.add_sub_cancel, hskip] at h
      exact h rfl
    have hbraces := balanced_extend hopen u
    rw [List.cons_append] at hbraces ⊢
    rw [windowFrom, if_neg hline, if_pos hbrace, if_pos htype, braces, hbraces]
    exact congrArg (keep c) (ih h)
  | case5 before p s closed c cs hline hbrace htype =>
    rw [List.cons_append, windowFrom, if_neg hline, if_pos hbrace, if_neg htype]
  | case6 before p s closed c cs hline hbrace p' s' ih =>
    rw [List.cons_append, windowFrom, if_neg hline, if_neg hbrace]
    exact congrArg (keep c) (ih h)

theorem window?_extend {prev : Option Char} {k : Nat} {t w r : Text} (hr : r ≠ [])
    (h : window? ⟨prev, k, t⟩ = some (w, r)) (u : Text) :
    window? ⟨prev, k, t ++ u⟩ = some (w, r ++ u) := by
  obtain ⟨hstart, x, hx, hblank, rfl, rfl⟩ := window?_eq_some.1 h
  have hx : t = "func".toList ++ x := hx
  have hhead : (x ++ u).head?.any isBlank = true := by
    cases x with
    | nil => cases hblank
    | cons c x => exact hblank
  have hwindow := windowFrom_extend hr u
  refine window?_eq_some.2 ⟨hstart, x ++ u, by rw [hx, List.append_assoc], hhead, ?_, ?_⟩
  · rw [hwindow]
  · rw [hwindow]

/-- No word `func` goes across a line end. -/
theorem window?_eq_none_extend {prev : Option Char} {k : Nat} {t : Text} (ht : t.getLast? = some '\n')
    (h : window? ⟨prev, k, t⟩ = none) (u : Text) : window? ⟨prev, k, t ++ u⟩ = none := by
  rw [Option.eq_none_iff_forall_not_mem]
  rintro ⟨w, r⟩ hlong
  obtain ⟨hstart, y, hy, hblank, -, -⟩ := window?_eq_some.1 hlong
  obtain ⟨z, hz, hne, rfl⟩ := exists_after?_func ht hy
  obtain ⟨c, z, rfl⟩ := List.exists_cons_of_ne_nil hne
  have hread : window? ⟨prev, k, t⟩ = some _ :=
    window?_eq_some.2 ⟨hstart, c :: z, hz, hblank, rfl, rfl⟩
  rw [h] at hread
  cases hread

/-! ## All windows -/

/-- An ended window leaves at least the line end that its text ends in. -/
theorem rest_ne_nil_of_ended {s : Text} (hs : s.getLast? = some '\n') {x : Site Text}
    (hx : x ∈ sites window? s) (hended : Ended x) : x.rest ≠ [] := by
  intro hnil
  obtain ⟨a, b, rfl, -, hread⟩ := exists_cut_of_mem_sites hx
  obtain ⟨hne, hb⟩ := eq_append_of_window? hread
  have hb : b = x.found := by
    rw [hnil, List.append_nil] at hb
    exact hb
  have hlast : x.found.getLast? = some '\n' := by
    rw [← hs, hb]
    exact getLast?_of_suffix (List.suffix_append a x.found) hne
  rcases hended with hbrace | hline
  · rw [hlast] at hbrace
    cases hbrace
  · rw [hnil] at hline
    cases hline

/-- The windows of lines in which each one is ended are found whatever follows the lines, and those of
    what follows are found as if it stood alone. -/
theorem windows_append {s : Text} (hs : s.getLast? = some '\n')
    (hended : ∀ x ∈ sites window? s, Ended x) (t : Text) :
    windows (s ++ t) = windows s ++ windows t := by
  have hnone (p : Option Char) (k : Nat) (u : Text) (hu : u <:+ s) (hne : u ≠ [])
      (h : window? ⟨p, k, u⟩ = none) : window? ⟨p, k, u ++ t⟩ = none := by
    refine window?_eq_none_extend ?_ h t
    rw [getLast?_of_suffix hu hne, hs]
  have hsites := sitesFrom_extend hnone (fun _ _ _ _ _ _ hr h => window?_extend hr h t)
    (Nat.zero_le s.length) fun x hx => rest_ne_nil_of_ended hs hx (hended x hx)
  -- A window depends neither on offsets nor on the line end before it.
  have hoffset (p : Option Char) (k k' : Nat) (t : Text) : window? ⟨p, k, t⟩ = window? ⟨p, k', t⟩ := rfl
  have hprev (k : Nat) (t : Text) : window? ⟨some '\n', k, t⟩ = window? ⟨none, k, t⟩ := rfl
  unfold windows sites
  rw [hsites, List.map_append, List.map_map, hs, Option.some_or]
  exact congrArg _ (map_found_sitesFrom hoffset hprev 0 _ 0 t)

/-- The fragments of lines that leave no comment and no window open are found whatever follows the lines,
    and what follows them yields its own. The same lines a second time add nothing. -/
theorem fragments_append_of_ended {a : Text} (hline : a.getLast? = some '\n')
    (hblock : ¬ "/*".toList <:+: CommentStyle.slashes.strip a)
    (hended : ∀ x ∈ sites window? (CommentStyle.slashes.strip a), Ended x) :
    (∀ b, fragments (a ++ b) = distinct (fragments a ++ fragments b)) ∧
      fragments (a ++ a) = fragments a := by
  have happend (b : Text) : fragments (a ++ b) = distinct (fragments a ++ fragments b) := by
    have hlast : ∀ c ∈ a.getLast?, c = '\n' := by
      rw [hline]
      simp
    have hwindows := windows_append (CommentStyle.getLast?_strip_slashes hline) hended
      (CommentStyle.slashes.strip b)
    unfold fragments
    rw [CommentStyle.strip_slashes_lines hlast hblock, hwindows, List.filter_append, distinct_append]
  refine ⟨happend, ?_⟩
  rw [happend a, fragments, distinct_append, distinct_append_self]

/-- A comment, a function with a body and a declaration without one. -/
def clockSource : Text := "// clocks\nfunc Tick(c *Clock) \x7b\n\x7d\nfunc now() int64\n".toList

/-- Both declarations are found in front of any text. -/
theorem fragments_append_of_ended_clockSource :
    (∀ x ∈ sites window? (CommentStyle.slashes.strip clockSource), Ended x) ∧
      (∀ b, fragments (clockSource ++ b) =
        distinct (["func Tick(c *Clock) \x7b".toList, "func now() int64".toList] ++ fragments b)) ∧
      fragments (clockSource ++ clockSource) =
        ["func Tick(c *Clock) \x7b".toList, "func now() int64".toList] := by
  have hended : ∀ x ∈ sites window? (CommentStyle.slashes.strip clockSource), Ended x := by
    decide +kernel
  have hfound : fragments clockSource =
      ["func Tick(c *Clock) \x7b".toList, "func now() int64".toList] := by
    decide +kernel
  have hall := fragments_append_of_ended (a := clockSource) rfl (by decide +kernel) hended
  rw [hfound] at hall
  exact ⟨hended, hall⟩

end Synopsis.Go
