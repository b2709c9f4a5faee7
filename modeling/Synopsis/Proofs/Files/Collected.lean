import Synopsis.Cli.Run
import Synopsis.Proofs.Files.Registry
import Synopsis.Proofs.Files.Walk

/-!
# Every collected file has a language

Whether a file is a source file is asked twice: a walk compares the suffix of its name with the
suffixes that a registry owns, and the registry looks the suffix up again when the file is read. Both
put it in lower case, and the suffixes of a registry stay in lower case through any row of changes
(`settled_after`), so the two agree on every path (`wants_eq_isSome`) and whatever is collected can
be read by some language (`isSome_forPath?_of_mem_collectPath`).
-/

namespace Synopsis

open Text

namespace Registry

variable {α : Type}

theorem isSome_forSuffix?_iff {r : Registry α} {suffix : Text} :
    (r.forSuffix? suffix).isSome = true ↔ lower suffix ∈ r.suffixes := by
  rw [forSuffix?, List.lookup_isSome_iff, suffixes, List.mem_map]
  constructor
  · rintro ⟨e, he, hkey⟩
    exact ⟨e, he, (eq_of_beq hkey).symm⟩
  · rintro ⟨e, he, hkey⟩
    exact ⟨e, he, beq_iff_eq.2 hkey.symm⟩

/-- A walk for the suffixes of a registry wants a file when the registry has a language for it. -/
theorem wants_eq_isSome [HasProfile α] {r : Registry α} {half : Option α} (h : Settled r half)
    {w : WalkRules} (hw : w.suffixes = r.suffixes) (path : Path) :
    w.wants path.name = (r.forPath? path).isSome := by
  have hlower : r.suffixes.map lower = r.suffixes := by
    rw [suffixes, List.map_map]
    exact List.map_congr_left h.lower_eq
  rw [Bool.eq_iff_iff, forPath?, isSome_forSuffix?_iff, WalkRules.wants, hw, hlower,
    List.contains_iff_mem, Path.suffix]

end Registry

theorem Path.name_append (root : Path) (folders : List Text) (name : Text) :
    (root.append (folders ++ [name])).name = name := by
  simp [Path.append, Path.name]

/-- Whatever a walk finds ends in a name that it wants. -/
theorem wants_name_of_mem_walk {w : WalkRules} {root : Path} {start : Node} {path : Path}
    (h : path ∈ (start.walk w).filterMap (Walk.foundPath? root)) : w.wants path.name = true := by
  rw [filterMap_foundPath?] at h
  obtain ⟨names, hnames, rfl⟩ := List.mem_map.1 h
  obtain ⟨folders, name, rfl, -, hkept⟩ := Node.mem_found.1 hnames
  rw [List.nil_append, Path.name_append]
  exact List.contains_iff_mem.2 hkept.wanted

/-! ## Collecting -/

section Except

variable {ε α β : Type}

theorem exists_of_bind_eq_ok {x : Except ε α} {f : α → Except ε β} {b : β}
    (h : x >>= f = .ok b) : ∃ a, x = .ok a ∧ f a = .ok b := by
  cases x with
  | error e => cases h
  | ok a => exact ⟨a, rfl, h⟩

theorem exists_of_mem_mapM {f : α → Except ε β} {xs : List α} {ys : List β}
    (h : xs.mapM f = .ok ys) {y : β} (hy : y ∈ ys) : ∃ x ∈ xs, f x = .ok y := by
  induction xs generalizing ys with
  | nil => cases h; cases hy
  | cons x xs ih =>
    rw [List.mapM_cons] at h
    obtain ⟨first, hfirst, h⟩ := exists_of_bind_eq_ok h
    obtain ⟨rest, hrest, h⟩ := exists_of_bind_eq_ok h
    cases h
    rcases List.mem_cons.1 hy with rfl | hy
    · exact ⟨x, List.mem_cons_self, hfirst⟩
    · obtain ⟨x', hx', hfx⟩ := ih hrest hy
      exact ⟨x', List.mem_cons_of_mem x hx', hfx⟩

theorem eq_ok_of_mapError {ε' : Type} {f : ε → ε'} {x : Except ε α} {a : α}
    (h : x.mapError f = .ok a) : x = .ok a := by
  cases x with
  | error e => cases h
  | ok b => cases h; rfl

end Except

namespace Cli

open Registry

variable {α : Type} [HasProfile α]

/-- A path that one given path stands for has a language. -/
theorem isSome_forPath?_of_mem_collectPath {r : Registry α} {half : Option α} (h : Settled r half)
    {find : Path → Except PathFault Node} {useIgnore : Bool} {given : Text} {files : List Path}
    {notes : List Log.Record} (hcollect : collectPath find r useIgnore given = .ok (files, notes))
    {path : Path} (hpath : path ∈ files) : (r.forPath? path).isSome = true := by
  simp only [collectPath] at hcollect
  split at hcollect
  · cases hcollect
  · cases hcollect
    cases hpath
  · split at hcollect
    · next hsome =>
      cases hcollect
      rw [List.mem_singleton.1 hpath]
      exact hsome
    · cases hcollect
      cases hpath
  · -- with and without ignore rules the suffixes are the registry's
    split at hcollect <;>
    · obtain ⟨⟨rules, warnings⟩, -, hfiles⟩ := exists_of_bind_eq_ok hcollect
      cases hfiles
      rw [← wants_name_of_mem_walk hpath, eq_comm]
      exact wants_eq_isSome h rfl path

/-- Whatever changes a registry went through, its look-up agrees with the test of a walk for its
    suffixes on every path, and every collected path has a language. -/
theorem exists_forPath?_of_mem_collect (changes : List (Change α)) :
    (∀ w : WalkRules, w.suffixes = (after changes).suffixes →
      ∀ path : Path, w.wants path.name = ((after changes).forPath? path).isSome) ∧
    ∀ find useIgnore given files notes,
      collect find (after changes) useIgnore given = .ok (files, notes) →
      ∀ path ∈ files, ∃ l, (after changes).forPath? path = some l := by
  have hsettled := settled_after changes
  refine ⟨fun w hw => wants_eq_isSome hsettled hw, ?_⟩
  intro find useIgnore given files notes hcollect path hpath
  obtain ⟨found, hfound, hfiles⟩ := exists_of_bind_eq_ok hcollect
  cases hfiles
  obtain ⟨⟨part, partNotes⟩, hmem, hpart⟩ := List.mem_flatMap.1 hpath
  obtain ⟨one, -, hone⟩ := exists_of_mem_mapM hfound hmem
  cases one with
  | none => cases hone
  | some one =>
    have hcollected := eq_ok_of_mapError hone
    exact Option.isSome_iff_exists.1 (isSome_forPath?_of_mem_collectPath hsettled hcollected hpart)

/-- A folder with one file, and a file by every other path. -/
def lair : Path → Except PathFault Node := fun path =>
  .ok (if path.parts = [] then .folder [("n.C".toList, .file [])] else .file [])

/-- A suffix that a failed filling left behind is found in a folder and in a given path, and both files
    have a language. -/
theorem exists_forPath?_of_mem_collect_rivals :
    collect lair (after [.rebuild rivals]) false [some ".".toList, some "m.C".toList] =
      .ok ([⟨[], ["n.C".toList]⟩, ⟨[], ["m.C".toList]⟩], []) ∧
    (∃ l, (after [.rebuild rivals]).forPath? ⟨[], ["n.C".toList]⟩ = some l) ∧
    ({ suffixes := (after [.rebuild rivals]).suffixes } : WalkRules).wants "m.C".toList =
      ((after [.rebuild rivals]).forPath? ⟨[], ["m.C".toList]⟩).isSome := by
  have hcollect : collect lair (after [.rebuild rivals]) false [some ".".toList, some "m.C".toList] =
      .ok ([⟨[], ["n.C".toList]⟩, ⟨[], ["m.C".toList]⟩], []) := by decide +kernel
  obtain ⟨hwants, hfiles⟩ := exists_forPath?_of_mem_collect [.rebuild rivals]
  exact ⟨hcollect, hfiles _ _ _ _ _ hcollect _ List.mem_cons_self,
    hwants { suffixes := (after [.rebuild rivals]).suffixes } rfl ⟨[], ["m.C".toList]⟩⟩

end Cli

end Synopsis
