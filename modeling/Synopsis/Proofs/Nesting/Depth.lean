import Synopsis.Proofs.Nesting.Span

/-!
# Depth tables of a text in two parts

A stray closer leaves the depth at zero, so the table of a text depends on what precedes it only through
the number of braces that are open there (`braceDepthsFrom_split`). Text without braces keeps that number,
and whether a place is at the top level is the same all along it (`topLevelAt_append`).
-/

namespace Synopsis

/-- How many braces are open after a text that starts `depth` levels deep. -/
def bracesOpenAfter : (depth : Nat) → Text → Nat
  | d, [] => d
  | d, x :: xs => bracesOpenAfter (if x = '{' then d + 1 else if x = '}' then d - 1 else d) xs

theorem bracesOpenAfter_append (d : Nat) (s t : Text) :
    bracesOpenAfter d (s ++ t) = bracesOpenAfter (bracesOpenAfter d s) t := by
  induction s generalizing d with
  | nil => rfl
  | cons x s ih => exact ih _

theorem bracesOpenAfter_of_not_mem {s : Text} (ho : '{' ∉ s) (hc : '}' ∉ s) (d : Nat) :
    bracesOpenAfter d s = d := by
  induction s with
  | nil => rfl
  | cons x s ih =>
    simp only [List.mem_cons, not_or] at ho hc
    rw [bracesOpenAfter, if_neg (Ne.symm ho.1), if_neg (Ne.symm hc.1), ih ho.2 hc.2]

theorem braceDepthsFrom_split (d : Nat) (s t : Text) :
    braceDepthsFrom d (s ++ t) = braceDepthsFrom d s ++ braceDepthsFrom (bracesOpenAfter d s) t := by
  induction s generalizing d with
  | nil => rfl
  | cons x s ih =>
    rw [List.cons_append, braceDepthsFrom, braceDepthsFrom, bracesOpenAfter]
    split
    · rw [ih, List.cons_append]
    · split <;> rw [ih, List.cons_append]

/-- A character other than an opening brace is at the top level when no brace is open before it. -/
theorem topLevelAt_iff {s t : Text} {c : Char} (hc : c ≠ '{') :
    topLevelAt (braceDepths (s ++ c :: t)) s.length = true ↔ bracesOpenAfter 0 s = 0 := by
  have hhere : (braceDepthsFrom (bracesOpenAfter 0 s) (c :: t))[0]? = some (bracesOpenAfter 0 s) := by
    rw [braceDepthsFrom, if_neg hc]
    split <;> rfl
  rw [topLevelAt, braceDepths, braceDepthsFrom_split, ← length_braceDepthsFrom 0 s,
    List.getElem?_append_right (Nat.le_refl _), Nat.sub_self, hhere]
  simp

/-- What stands behind text without braces is at the top level when the text is. -/
theorem topLevelAt_append {s u t : Text} {c : Char} (ho : '{' ∉ u) (hc : '}' ∉ u) (hne : c ≠ '{')
    (h : topLevelAt (braceDepths (s ++ (u ++ c :: t))) s.length = true) :
    topLevelAt (braceDepths (s ++ (u ++ c :: t))) (s ++ u).length = true := by
  rw [← List.append_assoc, topLevelAt_iff hne, bracesOpenAfter_append, bracesOpenAfter_of_not_mem ho hc]
  cases u with
  | nil => exact (topLevelAt_iff hne).1 h
  | cons x u =>
    exact (topLevelAt_iff fun hx => ho (hx ▸ List.mem_cons_self)).1 h

end Synopsis
