import Synopsis.Proofs.Nesting.Balanced

/-!
# Masked texts

A scanner for one language passes over delimiters that a balanced span would count. What it passes over is
said by a table with one mark for every character, and `masked` puts a neutral character in all the marked
places. Then the scanner can be compared with the balanced span of the masked text: both cut the same
stretch, which is what `balancedAt_of_length` reduces to a comparison of lengths.
-/

namespace Synopsis

open Text

/-- A text with a neutral character in the places that are marked. -/
def masked (neutral : Char) (marks : List Bool) (t : Text) : Text :=
  List.zipWith (fun isHidden c => if isHidden then neutral else c) marks t

section Masked

variable {n : Char}

@[simp] theorem masked_cons (isHidden : Bool) (marks : List Bool) (c : Char) (t : Text) :
    masked n (isHidden :: marks) (c :: t) = (if isHidden then n else c) :: masked n marks t := rfl

theorem drop_masked (marks : List Bool) (t : Text) (k : Nat) :
    (masked n marks t).drop k = masked n (marks.drop k) (t.drop k) := List.drop_zipWith

/-- A stretch that is marked as a whole is one neutral character after the other. -/
theorem masked_append_replicate (marks : List Bool) (s t : Text) :
    masked n (List.replicate s.length true ++ marks) (s ++ t) =
      List.replicate s.length n ++ masked n marks t := by
  induction s with
  | nil => rfl
  | cons c s ih => simpa [List.replicate_succ] using ih

/-- Texts that differ in marked places only are masked in the same way. -/
theorem masked_congr {marks : List Bool} {t u : Text} (hlen : u.length = t.length)
    (h : ∀ (j : Nat) (a b : Char), t[j]? = some a → u[j]? = some b → a ≠ b →
      marks[j]? = some true) :
    masked n marks u = masked n marks t := by
  induction t generalizing marks u with
  | nil => rw [List.length_eq_zero_iff.1 hlen]
  | cons a t ih =>
    obtain ⟨b, u, rfl⟩ := List.exists_cons_of_length_eq_add_one hlen
    cases marks with
    | nil => rfl
    | cons m marks =>
      have htail := ih (Nat.succ.inj hlen) fun j x y hx hy => h (j + 1) x y hx hy
      rw [masked_cons, masked_cons, htail]
      by_cases hab : a = b
      · rw [hab]
      · obtain rfl : m = true := Option.some.inj (h 0 a b rfl rfl hab)
        rfl

end Masked

/-! ## Stretches of a text -/

theorem slice_of_drop {t s r : Text} {start : Nat} (h : t.drop start = s ++ r) :
    slice t start (start + s.length) = s := by
  rw [slice_eq_take_drop, h, Nat.add_sub_cancel_left, List.take_left]

/-- A span is the stretch from its offset on that has its length. -/
theorem balancedAt_of_length {opener closer : Char} {t : Text} {start k : Nat}
    (h : (balanced opener closer (t.drop start)).1.length = k) :
    balancedAt [opener] [closer] t start = .ok (slice t start (start + k), (start + k : Nat)) := by
  subst h
  rw [slice_of_drop (balanced_append opener closer (t.drop start)).symm, Int.natCast_add]
  exact balancedAt_of_balanced rfl

end Synopsis
