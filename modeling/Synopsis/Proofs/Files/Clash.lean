import Synopsis.Proofs.Files.Registry

/-!
# When a list of languages can be entered

A list is entered language by language and, within a language, suffix by suffix, and it is left at the first
suffix that is taken. Seen from outside there is one row of suffixes (`owned`), and the two loops together
find out whether it has a repetition. Results:

1. `claim_entered`, `enter_entered`: what one language and what a list adds to a registry in which the
   languages before it are entered, up to the first repetition (`Clash.First`) if there is one.
2. `rebuild_outcome`: filling anew fails exactly for a row with a repetition; what is registered then is
   the whole list, or everything in front of the first repetition.
-/

namespace Synopsis.Registry

open Text
open HasProfile (profile)

variable {α : Type}

/-! ## Rows of suffixes -/

/-- Suffixes in lower case, each with the language that has it. -/
def ownedBy (l : α) (ss : List Text) : List (Text × α) := ss.map fun s => (lower s, l)

/-- Suffixes of which no two are equal. -/
def Apart (owned : List (Text × α)) : Prop := (owned.map Prod.fst).Nodup

section Apart

theorem apart_concat_iff {owned : List (Text × α)} {s : Text} {l : α} :
    Apart (owned ++ [(s, l)]) ↔ Apart owned ∧ s ∉ owned.map Prod.fst := by
  unfold Apart
  rw [List.map_append, List.map_singleton, List.nodup_append]
  constructor
  · rintro ⟨howned, -, hne⟩
    exact ⟨howned, fun hmem => hne s hmem s List.mem_cons_self rfl⟩
  · rintro ⟨howned, hnot⟩
    refine ⟨howned, List.pairwise_singleton _ s, ?_⟩
    intro x hx y hy he
    obtain rfl : y = s := List.mem_singleton.1 hy
    exact hnot (he ▸ hx)

theorem Apart.left {front back : List (Text × α)} (h : Apart (front ++ back)) : Apart front := by
  unfold Apart at h
  rw [List.map_append] at h
  exact (List.nodup_append.1 h).1

/-- In a row without repetitions a suffix is found exactly where it stands. -/
theorem Apart.lookup_eq_some_iff {owned : List (Text × α)} (h : Apart owned) {s : Text} {l : α} :
    owned.lookup s = some l ↔ (s, l) ∈ owned := by
  rw [List.lookup_eq_some_iff]
  constructor
  · rintro ⟨front, back, rfl, -⟩
    exact List.mem_append_right _ List.mem_cons_self
  · intro hmem
    obtain ⟨front, back, rfl⟩ := List.append_of_mem hmem
    refine ⟨front, back, rfl, fun e he => bne_iff_ne.2 fun hkey => ?_⟩
    unfold Apart at h
    rw [List.map_append, List.map_cons] at h
    exact (List.nodup_append.1 h).2.2 e.1 (List.mem_map_of_mem he) s List.mem_cons_self hkey.symm

end Apart

variable [HasProfile α]

/-- The suffixes of a row of languages, in the order in which they are entered. -/
def owned (ls : List α) : List (Text × α) := ls.flatMap fun l => ownedBy l (profile l).suffixes

theorem owned_append (ls ms : List α) : owned (ls ++ ms) = owned ls ++ owned ms := List.flatMap_append

theorem owned_concat (ls : List α) (l : α) :
    owned (ls ++ [l]) = owned ls ++ ownedBy l (profile l).suffixes := by
  rw [owned_append]
  simp [owned]

theorem map_fst_owned (ls : List α) :
    (owned ls).map Prod.fst = (ls.flatMap fun l => (profile l).suffixes).map lower := by
  simp [owned, ownedBy, List.map_flatMap, Function.comp_def]

/-- A language owns a suffix when it declares one that is the same in lower case. -/
theorem mem_owned {ls : List α} {s : Text} {l : α} :
    (lower s, l) ∈ owned ls ↔ l ∈ ls ∧ ∃ x ∈ (profile l).suffixes, lower x = lower s := by
  simp only [owned, ownedBy, List.mem_flatMap, List.mem_map, Prod.mk.injEq]
  constructor
  · rintro ⟨m, hm, x, hx, hlower, rfl⟩
    exact ⟨hm, x, hx, hlower⟩
  · rintro ⟨hl, x, hx, hlower⟩
    exact ⟨l, hl, x, hx, hlower, rfl⟩

/-! ## The first repetition -/

/-- A suffix that is taken: the languages before its claimant, the suffixes of the claimant before it, and
    the language that holds it. -/
structure Clash (α : Type) where
  done : List α
  claimant : α
  taken : List Text
  suffix : Text
  holder : α

namespace Clash

/-- The suffixes in front of the repetition. -/
def before (c : Clash α) : List (Text × α) := owned c.done ++ ownedBy c.claimant c.taken

/-- What is registered in front of the repetition. -/
def registry (c : Clash α) : Registry α := ⟨c.before, c.done⟩

/-- How the repetition is reported. -/
def conflict (c : Clash α) : Conflict := ⟨c.suffix, (profile c.holder).name, (profile c.claimant).name⟩

/-- A place in a list of languages in front of which no suffix is repeated, and where one is. -/
structure First (c : Clash α) (ls : List α) : Prop where
  languages : ∃ rest, ls = c.done ++ c.claimant :: rest
  suffixes : ∃ left, (profile c.claimant).suffixes = c.taken ++ c.suffix :: left
  apart : Apart c.before
  held : (lower c.suffix, c.holder) ∈ c.before

/-- A list in which a suffix is repeated first at some place has a repetition. -/
theorem First.not_apart {c : Clash α} {ls : List α} (h : c.First ls) : ¬ Apart (owned ls) := by
  obtain ⟨rest, hls⟩ := h.languages
  obtain ⟨left, hsuffixes⟩ := h.suffixes
  have hrow : owned ls =
      c.before ++ [(lower c.suffix, c.claimant)] ++ (ownedBy c.claimant left ++ owned rest) := by
    rw [hls, List.append_cons, owned_append, owned_concat, hsuffixes]
    simp [before, ownedBy]
  rw [hrow]
  intro hapart
  exact (apart_concat_iff.1 hapart.left).2 (List.mem_map_of_mem h.held)

end Clash

/-! ## Entering languages -/

/-- The registry in which a row of languages is entered. -/
def entered (ls : List α) : Registry α := ⟨owned ls, ls⟩

/-- The rest of the suffixes of a language: all are free, or the first repetition is among them. -/
theorem claim_entered {done : List α} {l : α} {taken ss : List Text}
    (hsuffixes : (profile l).suffixes = taken ++ ss)
    (hapart : Apart (owned done ++ ownedBy l taken)) :
    (Apart (owned (done ++ [l])) ∧ (Registry.mk (owned done ++ ownedBy l taken) done).claim l ss =
        (⟨owned (done ++ [l]), done⟩, none)) ∨
      ∃ c : Clash α, c.First (done ++ [l]) ∧
        (Registry.mk (owned done ++ ownedBy l taken) done).claim l ss = (c.registry, some c.conflict) := by
  induction ss generalizing taken with
  | nil =>
    rw [List.append_nil] at hsuffixes
    have hall : owned (done ++ [l]) = owned done ++ ownedBy l taken := by rw [owned_concat, hsuffixes]
    exact .inl ⟨by rwa [hall], by rw [hall]; rfl⟩
  | cons s ss ih =>
    rw [claim]
    cases hholder : (Registry.mk (owned done ++ ownedBy l taken) done).forSuffix? s with
    | some holder =>
      have hheld := hapart.lookup_eq_some_iff.1 hholder
      exact .inr ⟨⟨done, l, taken, s, holder⟩, ⟨⟨[], rfl⟩, ⟨ss, hsuffixes⟩, hapart, hheld⟩, rfl⟩
    | none =>
      have hmore : owned done ++ ownedBy l taken ++ [(lower s, l)] =
          owned done ++ ownedBy l (taken ++ [s]) := by
        simp [ownedBy]
      have hfree : lower s ∉ (owned done ++ ownedBy l taken).map Prod.fst := by
        rw [List.mem_map]
        rintro ⟨e, he, hkey⟩
        exact absurd (List.lookup_eq_none_iff.1 hholder e he) (by simp [hkey])
      have hrest : (profile l).suffixes = taken ++ [s] ++ ss := by
        rw [hsuffixes, List.append_assoc]
        rfl
      have hnext := ih hrest (hmore ▸ apart_concat_iff.2 ⟨hapart, hfree⟩)
      rwa [← hmore] at hnext

/-- The rest of a list of languages: all are entered, or the first repetition is among them. -/
theorem enter_entered (done ls : List α) (hapart : Apart (owned done)) :
    (Apart (owned (done ++ ls)) ∧ (entered done).enter ls = (entered (done ++ ls), none)) ∨
      ∃ c : Clash α, c.First (done ++ ls) ∧ (entered done).enter ls = (c.registry, some c.conflict) := by
  induction ls generalizing done with
  | nil =>
    rw [List.append_nil]
    exact .inl ⟨hapart, rfl⟩
  | cons l ls ih =>
    have hstart : (entered done).claim l (profile l).suffixes =
        (Registry.mk (owned done ++ ownedBy l []) done).claim l (profile l).suffixes := by
      rw [show ownedBy l [] = [] from rfl, List.append_nil]
      rfl
    rw [enter, hstart, List.append_cons]
    have hnone : Apart (owned done ++ ownedBy l []) := by
      rwa [show ownedBy l [] = [] from rfl, List.append_nil]
    rcases claim_entered rfl hnone with ⟨hall, hclaim⟩ | ⟨c, hc, hclaim⟩
    · rw [hclaim]
      exact ih (done ++ [l]) hall
    · obtain ⟨rest, hrest⟩ := hc.languages
      refine .inr ⟨c, ⟨⟨rest ++ ls, ?_⟩, hc.suffixes, hc.apart, hc.held⟩, by rw [hclaim]⟩
      rw [hrest, List.append_assoc, List.cons_append]

theorem rebuild_cases (r : Registry α) (ls : List α) :
    (Apart (owned ls) ∧ r.apply (.rebuild ls) = (entered ls, none)) ∨
      ∃ c : Clash α, c.First ls ∧ r.apply (.rebuild ls) = (c.registry, some c.conflict) :=
  enter_entered [] ls List.nodup_nil

/-! ## Filling anew -/

/-- Filling a registry anew fails exactly when a suffix is repeated, in one language or in two, whatever was
    registered before. When it succeeds, all languages are entered and a suffix belongs to the language that
    declares it. When it fails, there is a first repetition: entered are the languages in front of the one
    that makes it, and owned are the suffixes in front of it. -/
theorem rebuild_outcome (r : Registry α) (ls : List α) :
    ((r.apply (.rebuild ls)).2.isSome = true ↔
      ¬ ((ls.flatMap fun l => (profile l).suffixes).map lower).Nodup) ∧
    (((ls.flatMap fun l => (profile l).suffixes).map lower).Nodup →
      (r.apply (.rebuild ls)).1.languages = ls ∧
      ∀ s l, (r.apply (.rebuild ls)).1.forSuffix? s = some l ↔
        l ∈ ls ∧ ∃ x ∈ (profile l).suffixes, lower x = lower s) ∧
    (¬ ((ls.flatMap fun l => (profile l).suffixes).map lower).Nodup →
      ∃ c : Clash α, c.First ls ∧ (r.apply (.rebuild ls)).2 = some c.conflict ∧
        (r.apply (.rebuild ls)).1.languages = c.done ∧
        ∀ s l, (r.apply (.rebuild ls)).1.forSuffix? s = some l ↔ (lower s, l) ∈ c.before) := by
  rw [← map_fst_owned]
  rcases rebuild_cases r ls with ⟨hapart, hresult⟩ | ⟨c, hfirst, hresult⟩
  · rw [hresult]
    refine ⟨iff_of_false (by simp) (not_not_intro hapart), fun _ => ⟨rfl, fun s l => ?_⟩, fun h => ?_⟩
    · exact hapart.lookup_eq_some_iff.trans mem_owned
    · exact absurd hapart h
  · rw [hresult]
    refine ⟨iff_of_true rfl hfirst.not_apart, fun h => ?_, fun _ => ⟨c, hfirst, rfl, rfl, fun s l => ?_⟩⟩
    · exact absurd h hfirst.not_apart
    · exact hfirst.apart.lookup_eq_some_iff

/-- With the second rival, a registry that held both is left with the first and with the suffix of the second
    that is its own; the first alone can be entered. -/
theorem rebuild_outcome_rivals :
    (¬ ((rivals.flatMap (·.suffixes)).map lower).Nodup ∧
      ∃ c : Clash Profile, c.First rivals ∧
        ((after rivalChanges).apply (.rebuild rivals)).2 = some c.conflict ∧
        ((after rivalChanges).apply (.rebuild rivals)).1.languages = c.done ∧
        ∀ s l, ((after rivalChanges).apply (.rebuild rivals)).1.forSuffix? s = some l ↔
          (lower s, l) ∈ c.before) ∧
    ((((rivals.take 1).flatMap (·.suffixes)).map lower).Nodup ∧
      ((after rivalChanges).apply (.rebuild (rivals.take 1))).1.languages = rivals.take 1) := by
  have hrepeated : ¬ ((rivals.flatMap (·.suffixes)).map lower).Nodup := by decide +kernel
  have hapart : (((rivals.take 1).flatMap (·.suffixes)).map lower).Nodup := by decide +kernel
  exact ⟨⟨hrepeated, (rebuild_outcome (after rivalChanges) rivals).2.2 hrepeated⟩, hapart,
    ((rebuild_outcome (after rivalChanges) (rivals.take 1)).2.1 hapart).1⟩

end Synopsis.Registry
