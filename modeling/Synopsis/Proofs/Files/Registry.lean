import Synopsis.Files.Registry
import Synopsis.Proofs.Text.Case

/-!
# Registries after any changes

A registry keeps two lists, which grow at different moments: a suffix is owned as soon as it is claimed,
and its language is entered when all of its suffixes are. A list with a conflict stops in between, and
filling a registry anew keeps what was claimed up to there. So of all owners of suffixes at most one is
not entered, the language at which the last filling stopped (`Settled.apply` for one change,
`settled_after` for any row of them), and it does own suffixes (`forSuffix?_after_conflict`).
-/

namespace Synopsis

open Text
open HasProfile (profile)

namespace Registry

variable {α : Type} [HasProfile α]

/-! ## Rows of changes -/

/-- The registry to which changes lead from an empty one. -/
def after (changes : List (Change α)) : Registry α := changes.foldl (fun r c => (r.apply c).1) {}

/-- The language at which the entering of a list stops, if it does: the first that is not entered. -/
def stop? (ls : List α) : Option α :=
  if (build ls).2.isSome then ls[(build ls).1.languages.length]? else none

/-- The language that a change leaves half entered, when `half` was before. -/
def Change.half? (half : Option α) : Change α → Option α
  | .fresh ls => if (build ls).2.isSome then half else none
  | .rebuild ls => stop? ls
  | .clear => none

/-- The language that changes leave half entered: the one at which the last filling anew stopped. -/
def halfEntered? (changes : List (Change α)) : Option α := changes.foldl Change.half? none

/-- A registry whose suffixes are in lower case and owned by languages that are entered, one apart. -/
structure Settled (r : Registry α) (half : Option α) : Prop where
  lower_eq : ∀ e ∈ r.bySuffix, lower e.1 = e.1
  owner : ∀ e ∈ r.bySuffix, e.2 ∈ r.languages ∨ half = some e.2

/-! ## One list of languages -/

/-- A language gets its suffixes in lower case, all of them or those before the one that is taken. -/
theorem claim_eq (r : Registry α) (l : α) (ss : List Text) :
    ∃ taken left, ss = taken ++ left ∧
      (r.claim l ss).1 = { r with bySuffix := r.bySuffix ++ taken.map fun s => (lower s, l) } ∧
      ((r.claim l ss).2 = none ↔ left = []) := by
  fun_induction claim r l ss with
  | case1 r => exact ⟨[], [], rfl, by simp, by simp⟩
  | case2 r s ss holder hholder => exact ⟨[], s :: ss, rfl, by simp, by simp⟩
  | case3 r s ss hfree ih =>
    obtain ⟨taken, left, rfl, hclaim, hnone⟩ := ih
    exact ⟨s :: taken, left, rfl, by simp [hclaim], hnone⟩

/-- Languages are entered up to the one at which a conflict arises, and only this one and those before
    it get suffixes. -/
theorem enter_eq (r : Registry α) (ls : List α) :
    ∃ done left added, ls = done ++ left ∧ (r.enter ls).1.languages = r.languages ++ done ∧
      (r.enter ls).1.bySuffix = r.bySuffix ++ added ∧ ((r.enter ls).2 = none ↔ left = []) ∧
      ∀ e ∈ added, lower e.1 = e.1 ∧ (e.2 ∈ done ∨ left.head? = some e.2) := by
  fun_induction enter r ls with
  | case1 r => exact ⟨[], [], [], rfl, by simp, by simp, by simp, by simp⟩
  | case2 r l ls r' conflict hclaim =>
    obtain ⟨taken, left, -, hr', -⟩ := r.claim_eq l (profile l).suffixes
    rw [hclaim] at hr'
    obtain rfl : r' = _ := hr'
    refine ⟨[], l :: ls, taken.map fun s => (lower s, l), rfl, by simp, rfl, by simp, ?_⟩
    intro e he
    obtain ⟨s, -, rfl⟩ := List.mem_map.1 he
    exact ⟨lower_lower s, .inr rfl⟩
  | case3 r l ls r' hclaim ih =>
    obtain ⟨taken, left, -, hr', -⟩ := r.claim_eq l (profile l).suffixes
    rw [hclaim] at hr'
    obtain rfl : r' = _ := hr'
    obtain ⟨done, left, added, rfl, hlanguages, hsuffixes, hnone, hadded⟩ := ih
    refine ⟨l :: done, left, (taken.map fun s => (lower s, l)) ++ added, rfl, by simp [hlanguages],
      by simp [hsuffixes], hnone, ?_⟩
    intro e he
    rcases List.mem_append.1 he with he | he
    · obtain ⟨s, -, rfl⟩ := List.mem_map.1 he
      exact ⟨lower_lower s, .inl List.mem_cons_self⟩
    · exact ⟨(hadded e he).1, (hadded e he).2.imp_left (List.mem_cons_of_mem l)⟩

theorem settled_build (ls : List α) : Settled (build ls).1 (stop? ls) := by
  obtain ⟨done, left, added, hls, hlanguages, hsuffixes, hnone, hadded⟩ := enter_eq {} ls
  rw [List.nil_append] at hlanguages hsuffixes
  refine ⟨fun e he => (hadded e (hsuffixes ▸ he)).1, fun e he => ?_⟩
  rcases (hadded e (hsuffixes ▸ he)).2 with hmem | hhead
  · exact .inl (hlanguages ▸ hmem)
  · have hstop : (build ls).2.isSome = true := by
      rw [Option.isSome_iff_ne_none]
      intro h
      rw [hnone.1 h] at hhead
      cases hhead
    refine .inr ?_
    rw [stop?, if_pos hstop, show (build ls).1.languages = done from hlanguages, hls,
      List.getElem?_append_right (Nat.le_refl _), Nat.sub_self, ← List.head?_eq_getElem?, hhead]

theorem stop?_eq_none {ls : List α} (h : (build ls).2 = none) : stop? ls = none := by
  rw [stop?, h]
  rfl

/-! ## Any row of changes -/

/-- What a change keeps. -/
theorem Settled.apply {r : Registry α} {half : Option α} (h : Settled r half) (c : Change α) :
    Settled (r.apply c).1 (c.half? half) := by
  cases c with
  | clear => exact ⟨by simp [Registry.apply], by simp [Registry.apply]⟩
  | rebuild ls => exact settled_build ls
  | fresh ls =>
    have hbuild := settled_build ls
    rw [Registry.apply, Change.half?]
    cases hls : build ls with
    | mk r' conflict =>
      cases conflict with
      | none => rwa [stop?_eq_none (by rw [hls]), hls] at hbuild
      | some conflict => exact h

/-- What every row of changes keeps. -/
theorem settled_after (changes : List (Change α)) : Settled (after changes) (halfEntered? changes) := by
  have hrun (r : Registry α) (half : Option α) (h : Settled r half) :
      Settled (changes.foldl (fun r c => (r.apply c).1) r) (changes.foldl Change.half? half) := by
    induction changes generalizing r half with
    | nil => exact h
    | cons c changes ih => exact ih _ _ (h.apply c)
  exact hrun {} none ⟨by simp, by simp⟩

/-! ## Owners of suffixes -/

omit [HasProfile α] in
theorem mem_bySuffix_of_forSuffix? {r : Registry α} {suffix : Text} {l : α}
    (h : r.forSuffix? suffix = some l) : (lower suffix, l) ∈ r.bySuffix := by
  obtain ⟨front, back, hr, -⟩ := List.lookup_eq_some_iff.1 h
  rw [hr]
  exact List.mem_append_right _ List.mem_cons_self

theorem mem_ignoreDirs {r : Registry α} {l : α} (h : l ∈ r.languages) {dir : Text}
    (hdir : dir ∈ (profile l).ignoreDirs) : dir ∈ r.ignoreDirs := by
  rw [ignoreDirs, List.mem_eraseDups, List.mem_flatMap]
  exact ⟨l, h, hdir⟩

/-- Whoever owns a suffix is entered, and its directories are skipped, unless it is the language at
    which the last filling stopped. -/
theorem mem_languages_of_forSuffix? {changes : List (Change α)} {suffix : Text} {l : α}
    (howner : (after changes).forSuffix? suffix = some l) (hhalf : halfEntered? changes ≠ some l) :
    l ∈ (after changes).languages ∧
      ∀ dir ∈ (profile l).ignoreDirs, dir ∈ (after changes).ignoreDirs := by
  have hmem := mem_bySuffix_of_forSuffix? howner
  have hentered := ((settled_after changes).owner _ hmem).resolve_right hhalf
  exact ⟨hentered, fun dir => mem_ignoreDirs hentered⟩

/-- Two languages of which the second claims a suffix of its own and then one of the first. -/
def rivals : List Profile :=
  [⟨"x".toList, [".a".toList, ".b".toList], ["i".toList]⟩,
    ⟨"y".toList, [".c".toList, ".B".toList], ["j".toList]⟩]

/-- A new registry of the first, and then one that is filled with both. -/
def rivalChanges : List (Change Profile) := [.fresh (rivals.take 1), .clear, .rebuild rivals]

theorem mem_languages_of_forSuffix?_rivals :
    ((after rivalChanges).forSuffix? ".A".toList = rivals[0]? ∧ halfEntered? rivalChanges = rivals[1]?) ∧
      ∃ l ∈ (after rivalChanges).languages, rivals[0]? = some l ∧
        ∀ dir ∈ (profile l).ignoreDirs, dir ∈ (after rivalChanges).ignoreDirs := by
  have howner : (after rivalChanges).forSuffix? ".A".toList = some rivals[0] := by decide +kernel
  have hhalf : halfEntered? rivalChanges ≠ some rivals[0] := by decide +kernel
  obtain ⟨hmem, hdirs⟩ := mem_languages_of_forSuffix? howner hhalf
  exact ⟨⟨howner, by decide +kernel⟩, rivals[0], hmem, rfl, hdirs⟩

/-- After the conflict the second owns a suffix, is not entered, and its directory is not skipped. -/
theorem forSuffix?_after_conflict :
    (after [.rebuild rivals]).forSuffix? ".c".toList = rivals[1]? ∧
      (after [.rebuild rivals]).languages = rivals.take 1 ∧
      rivals[1] ∉ (after [.rebuild rivals]).languages ∧
      "j".toList ∉ (after [.rebuild rivals]).ignoreDirs := by
  decide +kernel

end Registry

end Synopsis
