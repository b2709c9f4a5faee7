import Synopsis.Proofs.Nesting.Masked
import Synopsis.Proofs.Offset.Rust

/-!
# Rust: generics and arrows

The `>` of a thin arrow closes no generics. So the generics at an offset are the balanced span that stands
there once every such `>` is masked (`balancedAt_masked`).
-/

namespace Synopsis.Rust

open Text

/-- The generics at an offset and the offset just past them. -/
def genericsAt (t : Text) (start : Nat) : Text × Nat :=
  let span := (generics (t.drop start)).1
  (span, start + span.length)

/-- Marks every `>` that follows a `-`; `prev` is what precedes the text. -/
def arrowMarks (prev : Option Char) (t : Text) : List Bool :=
  List.zipWith (fun before c => before == some '-' && c == '>') (prev :: t.map some) t

theorem arrowMarks_cons (prev : Option Char) (c : Char) (t : Text) :
    arrowMarks prev (c :: t) = (prev == some '-' && c == '>') :: arrowMarks (some c) t := rfl

theorem exists_drop_arrowMarks (prev : Option Char) (t : Text) (k : Nat) :
    ∃ prev', (arrowMarks prev t).drop k = arrowMarks prev' (t.drop k) := by
  induction k generalizing prev t with
  | zero => exact ⟨prev, rfl⟩
  | succ k ih =>
    cases t with
    | nil => exact ⟨prev, rfl⟩
    | cons c t => exact ih (some c) t

section Masked

variable {n : Char} (ho : n ≠ '<') (hc : n ≠ '>')

include ho hc

theorem length_spanFrom_masked (d : Nat) (prev : Option Char) (t : Text) :
    (spanFrom '<' '>' d (masked n (arrowMarks prev t) t)).1.length = (genericsFrom d prev t).1.length := by
  induction t generalizing d prev with
  | nil => rfl
  | cons c t ih =>
    rw [arrowMarks_cons, masked_cons, spanFrom, genericsFrom]
    by_cases hopen : c = '<'
    · simp [hopen, keep, ih]
    · by_cases hclose : c = '>'
      · by_cases hprev : prev = some '-'
        · simp [hclose, hprev, ho, hc, keep, ih]
        · by_cases hd : d = 1
          · simp [hclose, hprev, hd]
          · simp [hclose, hprev, hd, keep, ih]
      · simp [hopen, hclose, keep, ih]

theorem length_balanced_masked (prev : Option Char) (t : Text) :
    (balanced '<' '>' (masked n (arrowMarks prev t) t)).1.length = (generics t).1.length := by
  cases t with
  | nil => rfl
  | cons c t =>
    by_cases hopen : c = '<'
    · -- What precedes the opening bracket plays no part in what follows.
      subst hopen
      have hspan := length_spanFrom_masked ho hc 1 (some '<') t
      simpa [balanced, generics, spanFrom, genericsFrom, arrowMarks_cons, keep] using hspan
    · -- Without an opening bracket at the front there is none in the masked text either.
      have hhead : (masked n (arrowMarks prev (c :: t)) (c :: t)).head? ≠ some '<' := by
        rw [arrowMarks_cons, masked_cons, List.head?_cons, ne_eq, Option.some.injEq]
        split
        · exact ho
        · exact hopen
      rw [balanced, if_neg hhead, generics, if_neg (by simpa using hopen)]

/-- The generics at an offset end where the balanced span ends in the text without arrows. -/
theorem balancedAt_masked (t : Text) (start : Nat) : ∃ stop : Nat,
    genericsAt t start = (slice t start stop, stop) ∧
    balancedAt ['<'] ['>'] (masked n (arrowMarks none t) t) start =
      .ok (slice (masked n (arrowMarks none t) t) start stop, stop) := by
  obtain ⟨prev, hmarks⟩ := exists_drop_arrowMarks none t start
  refine ⟨start + (generics (t.drop start)).1.length, ?_, balancedAt_of_length ?_⟩
  · rw [slice_of_drop (Offset.Rust.generics_cut (t.drop start)).symm]
    rfl
  · rw [drop_masked, hmarks, length_balanced_masked ho hc]

end Masked

end Synopsis.Rust
