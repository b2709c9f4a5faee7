import Mathlib.Data.List.Chain
import Synopsis.Text.Case

/-!
# The small form is a fixed point

No small form has a small form of its own, so a text in lower case stays as it is (`lower_lower`). For
the letters above ASCII this is a fact about the table: no run leads to a code point that a run starts
from. As the runs stand in order, each is held against those up to the end of its small forms.
-/

namespace Synopsis.Text

/-! ## The table -/

/-- The code points that have a small form, in order: the ASCII capitals, the table, and the dotted
    capital I at its place in the table. -/
def capitalRuns : List CaseRun :=
  ⟨65, 90, 1, 32⟩ :: lowerRuns.take 3 ++ ⟨304, 304, 1, 0⟩ :: lowerRuns.drop 3

theorem mem_capitalRuns {s : CaseRun} (h : s ∈ lowerRuns) : s ∈ capitalRuns := by
  rw [← List.take_append_drop 3 lowerRuns] at h
  rcases List.mem_append.1 h with h | h
  · exact List.mem_append_left _ (List.mem_cons_of_mem _ h)
  · exact List.mem_append_right _ (List.mem_cons_of_mem _ h)

/-- Whether every second code point, or every one, from `a` to `b` lies outside the given runs: before
    them, behind them, or between their members. A run behind `b` ends the search. -/
def outside (alternate : Bool) (a b : Nat) : List CaseRun → Bool
  | [] => true
  | s :: ss => b.blt s.first ||
    ((s.last.blt a || (alternate && s.step.beq 2 && (a + s.first) % 2 == 1)) &&
      outside alternate a b ss)

theorem not_covers_of_outside {alternate : Bool} {a b : Nat} {runs : List CaseRun}
    (hruns : runs.Pairwise fun s s' => s.first < s'.first) (h : outside alternate a b runs = true)
    {m : Nat} (ha : a ≤ m) (hb : m ≤ b) (hm : alternate = true → (m - a) % 2 = 0) {s : CaseRun}
    (hs : s ∈ runs) : s.covers m = false := by
  rw [Bool.eq_false_iff]
  intro hcovers
  obtain ⟨⟨hfirst, hlast⟩, hstep⟩ : (s.first ≤ m ∧ m ≤ s.last) ∧ (m - s.first) % s.step = 0 := by
    simpa [CaseRun.covers] using hcovers
  induction runs with
  | nil => cases hs
  | cons r runs ih =>
    obtain ⟨hlater, hruns⟩ := List.pairwise_cons.1 hruns
    rw [outside, Bool.or_eq_true] at h
    rcases h with h | h
    · -- the run at hand and all behind it start behind `b`
      have hr : b < r.first := Nat.le_of_ble_eq_true h
      rcases List.mem_cons.1 hs with rfl | hs
      · omega
      · have := hlater s hs
        omega
    · obtain ⟨hr, hrest⟩ := Bool.and_eq_true_iff.1 h
      rcases List.mem_cons.1 hs with rfl | hs
      · rcases Bool.or_eq_true_iff.1 hr with hr | hr
        · have : s.last < a := Nat.le_of_ble_eq_true hr
          omega
        · simp only [Bool.and_eq_true, beq_iff_eq] at hr
          obtain ⟨⟨halternate, htwo⟩, hodd⟩ := hr
          have := hm halternate
          rw [Nat.eq_of_beq_eq_true htwo] at hstep
          omega
      · exact ih hruns hrest hs

/-- The runs stand in order. -/
theorem pairwise_capitalRuns : capitalRuns.Pairwise fun s s' => s.first < s'.first := by
  have hchain : capitalRuns.IsChain fun s s' => s.first < s'.first := by decide +kernel
  exact List.isChain_iff_pairwise.1 hchain

/-- The small forms of a run lie outside all runs. -/
theorem outside_lowerRuns : ∀ r ∈ lowerRuns, outside (r.step == 2 || r.first == r.last)
    (r.first + r.shift).toNat (r.last + r.shift).toNat capitalRuns = true := by
  decide +kernel

theorem lowerRuns_nonneg : ∀ r ∈ lowerRuns, 0 ≤ r.first + r.shift := by
  decide +kernel

/-! ## Characters -/

/-- A character without a small form of its own. -/
def IsSmall (c : Char) : Prop := c ≠ 'Σ' ∧ c ≠ 'İ' ∧ lowerChar c = c

theorem isSmall_of_not_covers {c : Char} (h : ∀ s ∈ capitalRuns, s.covers c.toNat = false) :
    IsSmall c := by
  have hne {d : Char} (hd : capitalRuns.any (·.covers d.toNat) = true) : c ≠ d := by
    rintro rfl
    obtain ⟨s, hs, hcovers⟩ := List.any_eq_true.1 hd
    rw [h s hs] at hcovers
    cases hcovers
  refine ⟨hne (by decide +kernel), hne (by decide +kernel), ?_⟩
  rw [lowerChar]
  split
  · refine dif_neg fun hupper => ?_
    have hfirst : 65 ≤ c.toNat := UInt32.le_iff_toNat_le.1 hupper.1
    have hlast : c.toNat ≤ 90 := UInt32.le_iff_toNat_le.1 hupper.2
    have hascii := h ⟨65, 90, 1, 32⟩ List.mem_cons_self
    simp [CaseRun.covers, hfirst, hlast, Nat.mod_one] at hascii
  · rw [List.find?_eq_none.2 fun s hs => by rw [h s (mem_capitalRuns hs)]; exact Bool.false_ne_true]

instance : DecidablePred IsSmall := fun c =>
  inferInstanceAs (Decidable (c ≠ 'Σ' ∧ c ≠ 'İ' ∧ lowerChar c = c))

theorem isSmall_toLower_ascii : ∀ n < 128, IsSmall (Char.ofNat n).toLower := by decide +kernel

theorem isSmall_shiftChar {c : Char} {r : CaseRun} (hr : r ∈ lowerRuns)
    (hc : r.covers c.toNat = true) : IsSmall (shiftChar c r.shift) := by
  obtain ⟨⟨hfirst, hlast⟩, hstep⟩ : (r.first ≤ c.toNat ∧ c.toNat ≤ r.last) ∧
      (c.toNat - r.first) % r.step = 0 := by simpa [CaseRun.covers] using hc
  rw [shiftChar]
  by_cases hvalid : (c.toNat + r.shift).toNat.isValidChar
  · have hpoint : (Char.ofNat (c.toNat + r.shift).toNat).toNat = (c.toNat + r.shift).toNat := by
      rw [Char.ofNat, dif_pos hvalid]
      rfl
    refine isSmall_of_not_covers fun s hs => ?_
    rw [hpoint]
    refine not_covers_of_outside pairwise_capitalRuns (outside_lowerRuns r hr) (by omega) (by omega)
      (fun halternate => ?_) hs
    have hbound := lowerRuns_nonneg r hr
    simp only [Bool.or_eq_true, beq_iff_eq] at halternate
    rcases halternate with htwo | hsingle
    · rw [htwo] at hstep
      omega
    · omega
  · -- there is no such character, and the one that stands in for it is small
    rw [Char.ofNat, dif_neg hvalid]
    decide

/-- Small forms are small, and so is every character that has none. -/
theorem isSmall_lowerChar {c : Char} (hdotted : c ≠ 'İ') : IsSmall (lowerChar c) := by
  rw [lowerChar]
  split
  · next hascii =>
    have h := isSmall_toLower_ascii c.toNat hascii
    rwa [Char.ofNat_toNat] at h
  · next hascii =>
    split
    · next r hr =>
      have hcovers := List.find?_some hr
      exact isSmall_shiftChar (List.mem_of_find?_eq_some hr) hcovers
    · next hnone =>
      have hcovers (s : CaseRun) (hs : s ∈ lowerRuns) : s.covers c.toNat = false := by
        simpa using List.find?_eq_none.1 hnone s hs
      refine isSmall_of_not_covers fun s hs => ?_
      simp only [capitalRuns, List.cons_append, List.mem_cons, List.mem_append] at hs
      rcases hs with rfl | hs | rfl | hs
      · simp [CaseRun.covers]
        omega
      · exact hcovers s (List.mem_of_mem_take hs)
      · have : c.toNat ≠ 304 := fun h => hdotted (by rw [← Char.ofNat_toNat c, h])
        simp [CaseRun.covers]
        omega
      · exact hcovers s (List.mem_of_mem_drop hs)

/-! ## Texts -/

theorem isSmall_of_mem_lowerFrom {before t : Text} {c : Char} (h : c ∈ lowerFrom before t) :
    IsSmall c := by
  induction t generalizing before with
  | nil => cases h
  | cons x t ih =>
    rw [lowerFrom] at h
    rcases List.mem_append.1 h with h | h
    · split at h
      · rw [List.mem_singleton] at h
        split at h
        · rw [h]
          decide +kernel
        · rw [h]
          decide +kernel
      · next hsigma =>
        split at h
        · rcases List.mem_cons.1 h with rfl | h
          · decide +kernel
          · rw [List.mem_singleton.1 h]
            decide +kernel
        · next hdotted =>
          obtain rfl := List.mem_singleton.1 h
          exact isSmall_lowerChar hdotted
    · exact ih h

theorem lowerFrom_of_isSmall {t : Text} (h : ∀ c ∈ t, IsSmall c) (before : Text) :
    lowerFrom before t = t := by
  induction t generalizing before with
  | nil => rfl
  | cons c t ih =>
    obtain ⟨hsigma, hdotted, hc⟩ := h c List.mem_cons_self
    rw [lowerFrom, if_neg hsigma, if_neg hdotted, hc,
      ih (fun d hd => h d (List.mem_cons_of_mem c hd)), List.singleton_append]

/-- A text in lower case stays as it is. -/
@[simp] theorem lower_lower (t : Text) : lower (lower t) = lower t :=
  lowerFrom_of_isSmall (fun _ => isSmall_of_mem_lowerFrom) []

end Synopsis.Text
