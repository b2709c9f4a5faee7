import Synopsis.Fragment
import Synopsis.Proofs.Text.Blank

/-!
# Distinct fragments

Keeping first occurrences commutes with every filter (`eraseDups_filter`), so it may be done part by
part: the fragments of two lists in a row are found from the distinct fragments of each
(`distinct_append`). A list that comes a second time adds nothing (`distinct_append_self`).
-/

namespace Synopsis

open Text

section FirstOccurrences

variable {α : Type} [BEq α] [LawfulBEq α]

theorem eraseDups_filter (p : α → Bool) (l : List α) :
    (l.filter p).eraseDups = l.eraseDups.filter p := by
  match l with
  | [] => rfl
  | a :: l =>
    have htail := eraseDups_filter p (l.filter fun b => !b == a)
    rw [List.filter_filter] at htail
    rw [List.eraseDups_cons, List.filter_cons, List.filter_cons, ← htail]
    split
    · next ha =>
      rw [List.eraseDups_cons, List.filter_filter]
      simp only [Bool.and_comm]
    · next ha =>
      -- what the filter keeps is not the element that it drops
      congr 1
      refine List.filter_congr fun b _ => ?_
      cases hb : b == a with
      | false => simp
      | true => rw [eq_of_beq hb, Bool.eq_false_iff.2 ha]; rfl
termination_by l.length
decreasing_by exact Nat.lt_succ_of_le (List.length_filter_le _ _)

theorem eraseDups_eraseDups (l : List α) : l.eraseDups.eraseDups = l.eraseDups := by
  match l with
  | [] => rfl
  | a :: l =>
    have htail := eraseDups_eraseDups (l.filter fun b => !b == a)
    rw [List.eraseDups_cons, List.eraseDups_cons, eraseDups_filter, htail, ← eraseDups_filter,
      List.filter_filter]
    simp only [Bool.and_self]
termination_by l.length
decreasing_by exact Nat.lt_succ_of_le (List.length_filter_le _ _)

theorem eraseDups_append_eraseDups (as bs : List α) :
    (as.eraseDups ++ bs.eraseDups).eraseDups = (as ++ bs).eraseDups := by
  have hmem (b : α) : as.eraseDups.elem b = as.elem b := by
    rw [Bool.eq_iff_iff, List.elem_iff, List.elem_iff, List.mem_eraseDups]
  rw [List.eraseDups_append, List.eraseDups_append, eraseDups_eraseDups, List.removeAll,
    List.removeAll, eraseDups_filter, eraseDups_eraseDups, eraseDups_filter]
  simp only [hmem]

end FirstOccurrences

/-- The trimmed fragments that are not blank. -/
def solidFragments (fragments : List Text) : List Text := (fragments.map trim).filter (!·.isEmpty)

theorem distinct_eq (xs : List Text) : distinct xs = (solidFragments xs).eraseDups := rfl

theorem solidFragments_append (xs ys : List Text) :
    solidFragments (xs ++ ys) = solidFragments xs ++ solidFragments ys := by
  rw [solidFragments, List.map_append, List.filter_append]
  rfl

/-- Distinct fragments are trimmed and not blank already. -/
theorem solidFragments_distinct (xs : List Text) : solidFragments (distinct xs) = distinct xs := by
  have hkeep (x : Text) (hx : x ∈ distinct xs) : trim x = x ∧ (!x.isEmpty) = true := by
    rw [distinct_eq, List.mem_eraseDups, solidFragments, List.mem_filter] at hx
    obtain ⟨hmap, hne⟩ := hx
    obtain ⟨y, -, rfl⟩ := List.mem_map.1 hmap
    exact ⟨trim_trim y, hne⟩
  rw [solidFragments, List.map_congr_left (g := id) fun x hx => (hkeep x hx).1, List.map_id,
    List.filter_eq_self.2 fun x hx => (hkeep x hx).2]

theorem distinct_append (xs ys : List Text) :
    distinct (distinct xs ++ distinct ys) = distinct (xs ++ ys) := by
  rw [distinct_eq, solidFragments_append, solidFragments_distinct, solidFragments_distinct, distinct_eq,
    distinct_eq, eraseDups_append_eraseDups, ← solidFragments_append, ← distinct_eq]

theorem distinct_append_self (xs : List Text) : distinct (xs ++ xs) = distinct xs := by
  have hgone (l : List Text) : l.removeAll l = [] := by
    refine List.filter_eq_nil_iff.2 fun x hx => ?_
    simpa using hx
  rw [distinct_eq, solidFragments_append, List.eraseDups_append, hgone, distinct_eq]
  exact List.append_nil _

end Synopsis
