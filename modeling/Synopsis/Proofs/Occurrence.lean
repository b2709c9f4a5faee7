import Mathlib.Data.List.Basic
import Mathlib.Data.List.Induction
import Synopsis.Proofs.Fragment
import Synopsis.Proofs.Scan.Site

/-!
# First occurrences

The distinct fragments of a list are what one run through it keeps that puts down every fragment not put
down before (`distinct_eq_foldl`). What is kept is described along that run, one fragment at a time:

1. `pairwise_distinct`: what is kept stands in the order in which it first occurs;
2. `nodup_distinct`: so nothing is kept twice;
3. `distinct_append_eq`: of a list that comes later, only what the earlier one did not keep is added.

`distinct_firstOccurrences` has these together with what is kept and with the compositional laws.
-/

namespace Synopsis

open Text

/-- What is kept after one more fragment: it is put down, trimmed, unless it is blank or there already. -/
def keepNew (kept : List Text) (fragment : Text) : List Text :=
  if trim fragment = [] ∨ trim fragment ∈ kept then kept else kept ++ [trim fragment]

/-! ## One fragment more -/

theorem solidFragments_singleton (x : Text) :
    solidFragments [x] = if trim x = [] then [] else [trim x] := by
  cases hx : trim x with
  | nil => simp [solidFragments, hx]
  | cons c t => simp [solidFragments, hx]

theorem mem_solidFragments {xs : List Text} {k : Text} : k ∈ solidFragments xs ↔ k ∈ distinct xs := by
  rw [distinct_eq, List.mem_eraseDups]

theorem distinct_concat (xs : List Text) (x : Text) :
    distinct (xs ++ [x]) = keepNew (distinct xs) x := by
  rw [distinct_eq, solidFragments_append, List.eraseDups_append, ← distinct_eq, solidFragments_singleton,
    keepNew]
  by_cases hblank : trim x = []
  · rw [if_pos hblank, if_pos (.inl hblank)]
    exact List.append_nil _
  · rw [if_neg hblank]
    by_cases hkept : trim x ∈ distinct xs
    · have hold : [trim x].removeAll (solidFragments xs) = [] := by
        simpa [List.removeAll] using mem_solidFragments.2 hkept
      rw [if_pos (.inr hkept), hold]
      exact List.append_nil _
    · have hnew : [trim x].removeAll (solidFragments xs) = [trim x] := by
        simpa [List.removeAll] using mt mem_solidFragments.1 hkept
      rw [if_neg (not_or.2 ⟨hblank, hkept⟩), hnew]
      rfl

/-- One run through the list, with what has been kept so far. -/
theorem distinct_eq_foldl (xs : List Text) : distinct xs = xs.foldl keepNew [] := by
  induction xs using List.reverseRecOn with
  | nil => rfl
  | append_singleton xs x ih => rw [distinct_concat, ih, List.foldl_concat]

theorem keepNew_cases (kept : List Text) (x : Text) :
    keepNew kept x = kept ∨
      trim x ≠ [] ∧ trim x ∉ kept ∧ keepNew kept x = kept ++ [trim x] := by
  rw [keepNew]
  split
  · exact .inl rfl
  · next hnew =>
    obtain ⟨hblank, hkept⟩ := not_or.1 hnew
    exact .inr ⟨hblank, hkept, rfl⟩

/-! ## A whole run -/

/-- What is kept has occurred, at an offset that what follows does not change. -/
theorem idxOf_concat_of_mem {xs : List Text} {k : Text} (h : k ∈ distinct xs) (x : Text) :
    ((xs ++ [x]).map trim).idxOf k = (xs.map trim).idxOf k ∧ (xs.map trim).idxOf k < xs.length := by
  obtain ⟨-, y, hy, rfl⟩ := mem_distinct.1 h
  have hmem : trim y ∈ xs.map trim := List.mem_map_of_mem hy
  refine ⟨by rw [List.map_append, List.idxOf_append_of_mem hmem], ?_⟩
  simpa using List.idxOf_lt_length_of_mem hmem

theorem pairwise_distinct (xs : List Text) :
    (distinct xs).Pairwise fun a b => (xs.map trim).idxOf a < (xs.map trim).idxOf b := by
  induction xs using List.reverseRecOn with
  | nil => exact .nil
  | append_singleton xs x ih =>
    -- What was kept before keeps its offset; what is new occurs at the offset that the run has reached.
    have hold : (distinct xs).Pairwise fun a b =>
        ((xs ++ [x]).map trim).idxOf a < ((xs ++ [x]).map trim).idxOf b := by
      refine ih.imp_of_mem fun {a b} ha hb hlt => ?_
      rwa [(idxOf_concat_of_mem ha x).1, (idxOf_concat_of_mem hb x).1]
    rw [distinct_concat]
    obtain hsame | ⟨hblank, hnew, hkeep⟩ := keepNew_cases (distinct xs) x
    · rwa [hsame]
    · have hfirst : trim x ∉ xs.map trim := fun hmem => by
        obtain ⟨y, hy, heq⟩ := List.mem_map.1 hmem
        exact hnew (mem_distinct.2 ⟨hblank, y, hy, heq⟩)
      have hhere : ((xs ++ [x]).map trim).idxOf (trim x) = xs.length := by
        rw [List.map_append, List.idxOf_append_of_notMem hfirst]
        simp
      rw [hkeep, List.pairwise_append]
      refine ⟨hold, List.pairwise_singleton _ _, fun a ha b hb => ?_⟩
      obtain rfl := List.mem_singleton.1 hb
      obtain ⟨hindex, hlt⟩ := idxOf_concat_of_mem ha x
      rwa [hhere, hindex]

theorem nodup_distinct (xs : List Text) : (distinct xs).Nodup := by
  refine (pairwise_distinct xs).imp fun {a b} hlt => ?_
  rintro rfl
  exact Nat.lt_irrefl _ hlt

/-! ## Two lists -/

theorem distinct_distinct (xs : List Text) : distinct (distinct xs) = distinct xs := by
  have hnone := distinct_append xs []
  rwa [List.append_nil, show distinct [] = [] from rfl, List.append_nil] at hnone

/-- The later list adds what it keeps itself and the earlier one has not kept. -/
theorem distinct_append_eq (xs ys : List Text) :
    distinct (xs ++ ys) = distinct xs ++ (distinct ys).filter (· ∉ distinct xs) := by
  have helem (k : Text) : (!(solidFragments xs).elem k) = decide (k ∉ distinct xs) := by
    rw [Bool.eq_iff_iff, Bool.not_eq_true', ← Bool.not_eq_true, List.elem_iff, mem_solidFragments,
      decide_eq_true_iff]
  rw [distinct_eq (xs ++ ys), solidFragments_append, List.eraseDups_append, List.removeAll,
    eraseDups_filter, ← distinct_eq, ← distinct_eq]
  simp only [helem]

/-- The distinct fragments of a list: none comes twice, they are the trimmed fragments that are not blank,
    and they stand in the order of their first occurrences. Doing it again changes nothing, and two lists
    may be done one by one: the second adds what the first has not kept. -/
theorem distinct_firstOccurrences (xs ys : List Text) :
    (distinct xs).Nodup ∧
    (∀ k, k ∈ distinct xs ↔ ∃ x ∈ xs, blank x = false ∧ trim x = k) ∧
    ((distinct xs).Pairwise fun a b => (xs.map trim).idxOf a < (xs.map trim).idxOf b) ∧
    distinct (distinct xs) = distinct xs ∧
    distinct (xs ++ ys) = distinct (distinct xs ++ distinct ys) ∧
    distinct (xs ++ ys) = distinct xs ++ (distinct ys).filter (· ∉ distinct xs) := by
  refine ⟨nodup_distinct xs, fun k => ?_, pairwise_distinct xs, distinct_distinct xs,
    (distinct_append xs ys).symm, distinct_append_eq xs ys⟩
  rw [mem_distinct]
  constructor
  · rintro ⟨hne, x, hx, rfl⟩
    exact ⟨x, hx, Bool.eq_false_iff.2 (mt trim_eq_nil_iff.2 hne), rfl⟩
  · rintro ⟨x, hx, hblank, rfl⟩
    exact ⟨mt trim_eq_nil_iff.1 (Bool.eq_false_iff.1 hblank), x, hx, rfl⟩

example : distinct (["b", "a ", " b", "", "c", "a"].map String.toList) =
    ["b", "a", "c"].map String.toList := by decide

end Synopsis
