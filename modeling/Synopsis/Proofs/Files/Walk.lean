import Synopsis.Files.Walk

/-!
# The files that a walk finds

What a walk finds is settled by the tree and the rules alone: the files whose suffix is wanted, below
folders that are neither skipped nor ignored (`mem_found`), each of them once, the files of a folder
before those of its folders and otherwise by code point (`pairwise_found`). As this order leaves one
list for a set of files, how the entries of a folder are listed changes nothing (`found_reordered`).
-/

namespace Synopsis

open Text

/-! ## Order of texts -/

namespace Text

/-- A text comes before another one by code point. -/
def Precedes (s t : Text) : Prop := List.Lex (fun a b => a.toNat < b.toNat) s t

theorem Precedes.irrefl (s : Text) : ¬ Precedes s s :=
  List.lex_irrefl (fun c => Nat.lt_irrefl c.toNat) s

theorem Precedes.asymm {s t : Text} (h : Precedes s t) : ¬ Precedes t s :=
  List.lex_asymm Nat.lt_asymm h

theorem Precedes.trans {s t u : Text} (hst : Precedes s t) (htu : Precedes t u) : Precedes s u :=
  List.lex_trans Nat.lt_trans hst htu

/-- Texts are sorted by code point. -/
theorem le_iff {s t : Text} : le s t = true ↔ Precedes s t ∨ s = t := by
  unfold Precedes
  fun_induction le s t with
  | case1 t => cases t <;> simp
  | case2 c s => simp
  | case3 s c t ih => simp [ih, List.cons_lex_cons_iff]
  | case4 a s b t hne => simp [List.cons_lex_cons_iff, hne]

theorem le_trans (s t u : Text) (hst : le s t = true) (htu : le t u = true) : le s u = true := by
  rw [le_iff] at hst htu ⊢
  rcases hst with hst | rfl
  · rcases htu with htu | rfl
    · exact .inl (hst.trans htu)
    · exact .inl hst
  · exact htu

theorem le_total (s t : Text) : (le s t || le t s) = true := by
  fun_induction le s t with
  | case1 t => rfl
  | case2 c s => rfl
  | case3 s c t ih => rwa [le, if_pos rfl]
  | case4 a s b t hne =>
    have hcode : a.toNat ≠ b.toNat := fun h => hne (Char.toNat_inj.1 h)
    rw [le, if_neg (Ne.symm hne), Bool.or_eq_true, decide_eq_true_iff, decide_eq_true_iff]
    exact Nat.lt_or_gt_of_ne hcode

end Text

/-! ## Entries by name -/

section ByName

variable {α β : Type}

theorem byName_map {f : Text × α → Text × β} (hf : ∀ e, (f e).1 = e.1) (entries : List (Text × α)) :
    byName (entries.map f) = (byName entries).map f := by
  rw [byName, byName, List.map_mergeSort]
  intro a _ b _
  rw [hf, hf]

@[simp] theorem mem_byName {entries : List (Text × α)} {e : Text × α} :
    e ∈ byName entries ↔ e ∈ entries := (List.mergeSort_perm entries _).mem_iff

/-- Entries whose names differ come in strictly rising order. -/
theorem pairwise_byName {entries : List (Text × α)} (h : (entries.map Prod.fst).Nodup) :
    (byName entries).Pairwise fun a b => Precedes a.1 b.1 := by
  have hsorted : (byName entries).Pairwise fun a b => le a.1 b.1 = true :=
    List.pairwise_mergeSort (fun a b c => le_trans a.1 b.1 c.1) (fun a b => le_total a.1 b.1) entries
  have hdistinct : (byName entries).Pairwise fun a b => a.1 ≠ b.1 := by
    rw [← List.pairwise_map, ← List.nodup_iff_pairwise_ne]
    exact (((List.mergeSort_perm entries _).map Prod.fst).nodup_iff).2 h
  exact hsorted.imp₂ (fun a b hle hne => (le_iff.1 hle).resolve_right hne) hdistinct

end ByName

/-! ## Trees -/

namespace Node

/-- A file of that name lies in the folder to which the names of folders lead. -/
inductive FileAt : Node → List Text → Text → Prop where
  | here {entries : List (Text × Node)} {name : Text} {bytes : List UInt8}
      (h : (name, file bytes) ∈ entries) : FileAt (folder entries) [] name
  | inside {entries : List (Text × Node)} {d : Text} {node : Node} {folders : List Text} {name : Text}
      (h : (d, node) ∈ entries) (hnode : FileAt node folders name) :
      FileAt (folder entries) (d :: folders) name

/-- No folder has two entries of one name. -/
inductive Distinct : Node → Prop where
  | file (bytes : List UInt8) : Distinct (file bytes)
  | folder {entries : List (Text × Node)} (names : (entries.map Prod.fst).Nodup)
      (nodes : ∀ e ∈ entries, Distinct e.2) : Distinct (folder entries)

/-- The entries of any folders of a tree in another order. -/
inductive Reordered : Node → Node → Prop where
  | refl (node : Node) : Reordered node node
  | trans {a b c : Node} : Reordered a b → Reordered b c → Reordered a c
  | entries {es es' : List (Text × Node)} : es.Perm es' → Reordered (folder es) (folder es')
  | inside {front back : List (Text × Node)} {name : Text} {node node' : Node} :
      Reordered node node' →
      Reordered (folder (front ++ (name, node) :: back)) (folder (front ++ (name, node') :: back))

/-- What holds of files, and of a folder when it holds of its entries, holds of every node. -/
theorem ofEntries {p : Node → Prop} (file : ∀ bytes, p (.file bytes))
    (folder : ∀ entries, (∀ e ∈ entries, p e.2) → p (.folder entries)) (node : Node) : p node :=
  @Node.rec p (fun entries => ∀ e ∈ entries, p e.2) (fun e => p e.2) file folder
    (fun _ he => absurd he List.not_mem_nil)
    (fun _ _ head tail => List.forall_mem_cons.2 ⟨head, tail⟩) (fun _ _ node => node) node

@[simp] theorem not_fileAt_file {bytes : List UInt8} {folders : List Text} {name : Text} :
    ¬ FileAt (.file bytes) folders name := nofun

@[simp] theorem fileAt_nil {entries : List (Text × Node)} {name : Text} :
    FileAt (.folder entries) [] name ↔ ∃ bytes, (name, .file bytes) ∈ entries :=
  ⟨fun | .here h => ⟨_, h⟩, fun ⟨_, h⟩ => .here h⟩

@[simp] theorem fileAt_cons {entries : List (Text × Node)} {d name : Text} {folders : List Text} :
    FileAt (.folder entries) (d :: folders) name ↔
      ∃ node, (d, node) ∈ entries ∧ FileAt node folders name :=
  ⟨fun | .inside h hnode => ⟨_, h, hnode⟩, fun ⟨_, h, hnode⟩ => .inside h hnode⟩

/-- A file has no entries to reorder. -/
theorem Reordered.eq_file_iff {node other : Node} (h : Reordered node other) (bytes : List UInt8) :
    other = .file bytes ↔ node = .file bytes := by
  induction h with
  | refl => rfl
  | trans _ _ ih ih' => rw [ih', ih]
  | entries => simp
  | inside => simp

/-- Reordering keeps every file in its folder. -/
theorem Reordered.fileAt_iff {node other : Node} (h : Reordered node other) (folders : List Text)
    (name : Text) : other.FileAt folders name ↔ node.FileAt folders name := by
  induction h generalizing folders with
  | refl => rfl
  | trans _ _ ih ih' => rw [ih', ih]
  | entries h => cases folders <;> simp [h.mem_iff]
  | inside h ih =>
    cases folders with
    | nil => simp [eq_comm, h.eq_file_iff]
    | cons d folders => simp [or_and_right, exists_or, and_assoc, ih]

theorem Reordered.distinct {node other : Node} (h : Reordered node other) (hnode : node.Distinct) :
    other.Distinct := by
  induction h with
  | refl => exact hnode
  | trans _ _ ih ih' => exact ih' (ih hnode)
  | entries h =>
    cases hnode with
    | folder names nodes =>
      exact .folder ((h.map Prod.fst).nodup_iff.1 names) fun e he => nodes e (h.mem_iff.2 he)
  | inside h ih =>
    cases hnode with
    | folder names nodes =>
      refine .folder (by simpa using names) fun e he => ?_
      simp only [List.mem_append, List.mem_cons] at he nodes
      rcases he with he | rfl | he
      · exact nodes e (.inl he)
      · exact ih (nodes _ (.inr (.inl rfl)))
      · exact nodes e (.inr (.inr he))

def isFile : Node → Bool
  | file _ => true
  | folder _ => false

theorem isFile_iff {node : Node} : node.isFile = true ↔ ∃ bytes, node = file bytes := by
  cases node <;> simp [isFile]

end Node

/-! ## What is kept -/

/-- A file below folders that a walk keeps when it is at `above`: its suffix is wanted, no folder on
    the way is hidden or skipped, and the rules ignore neither one of these folders nor the file. -/
structure WalkRules.Keeps (w : WalkRules) (above folders : List Text) (name : Text) : Prop where
  wanted : lower (suffixOfName name) ∈ w.suffixes.map lower
  entered : ∀ d ∈ folders, d.head? ≠ some '.' ∧ d ∉ w.ignoreDirs
  foldersKept : ∀ front ≠ [], front <+: folders → w.ignored (join "/" (above ++ front) ++ ['/']) = false
  fileKept : w.ignored (join "/" (above ++ folders ++ [name])) = false

namespace WalkRules

variable {w : WalkRules} {above folders : List Text} {d name : Text}

/-- Whether a walk reports a file of a folder. -/
def keepsFile (w : WalkRules) (above : List Text) (name : Text) : Bool :=
  w.wants name && !w.ignored (join "/" (above ++ [name]))

/-- Whether a walk goes into a folder of a folder. -/
def keepsFolder (w : WalkRules) (above : List Text) (d : Text) : Bool :=
  !w.skips d && !w.ignoresFolder (above ++ [d])

theorem keepsFile_iff : w.keepsFile above name = true ↔ w.Keeps above [] name := by
  simp only [keepsFile, wants, Bool.and_eq_true, List.contains_iff_mem, Bool.not_eq_true']
  constructor
  · rintro ⟨hwanted, hkept⟩
    exact ⟨hwanted, by simp, fun front hne h => absurd (List.prefix_nil.1 h) hne, by simpa using hkept⟩
  · intro h
    exact ⟨h.wanted, by simpa using h.fileKept⟩

theorem keeps_cons :
    w.Keeps above (d :: folders) name ↔
      w.keepsFolder above d = true ∧ w.Keeps (above ++ [d]) folders name := by
  have hcons (front : List Text) : above ++ d :: front = above ++ [d] ++ front := by simp
  simp only [keepsFolder, skips, ignoresFolder, Bool.and_eq_true, Bool.not_eq_true',
    Bool.or_eq_false_iff, beq_eq_false_iff_ne, List.contains_eq_mem, decide_eq_false_iff_not]
  constructor
  · intro h
    have hentered := List.forall_mem_cons.1 h.entered
    have hkept := h.foldersKept [d] (by simp) ⟨folders, rfl⟩
    refine ⟨⟨hentered.1, hkept⟩, h.wanted, hentered.2, fun front hne hfront => ?_, ?_⟩
    · rw [← hcons]
      exact h.foldersKept (d :: front) (by simp) (List.cons_prefix_cons.2 ⟨rfl, hfront⟩)
    · rw [← hcons]
      exact h.fileKept
  · rintro ⟨⟨hentered, hkept⟩, h⟩
    refine ⟨h.wanted, List.forall_mem_cons.2 ⟨hentered, h.entered⟩, fun front hne hfront => ?_, ?_⟩
    · cases front with
      | nil => exact absurd rfl hne
      | cons e front =>
        obtain ⟨rfl, hrest⟩ := List.cons_prefix_cons.1 hfront
        by_cases hnil : front = []
        · rwa [hnil]
        · rw [hcons]
          exact h.foldersKept front hnil hrest
    · rw [hcons]
      exact h.fileKept

end WalkRules

/-- The names of a found file. -/
def WalkEvent.found? : WalkEvent → Option (List Text)
  | .found names => some names
  | _ => none

section Found

variable {w : WalkRules} {above : List Text}

theorem found?_fileEvent? {name : Text} :
    (w.fileEvent? above name).bind WalkEvent.found? =
      if w.keepsFile above name then some (above ++ [name]) else none := by
  rw [WalkRules.fileEvent?, WalkRules.keepsFile]
  cases w.wants name <;> cases w.ignored (join "/" (above ++ [name])) <;> rfl

/-- The files of a folder are found first, then what is found in its folders. -/
theorem found_folderEvents {entries : List (Text × Option (List WalkEvent))} :
    (folderEvents w above entries).filterMap WalkEvent.found? =
      (((byName entries).filter fun e => e.2.isNone && w.keepsFile above e.1).map
        fun e => above ++ [e.1]) ++
      ((byName entries).filter fun e => w.keepsFolder above e.1).flatMap
        fun e => (e.2.getD []).filterMap WalkEvent.found? := by
  simp only [folderEvents, List.partition_eq_filter_filter, List.filterMap_append,
    List.append_assoc, List.filterMap_filterMap, found?_fileEvent?, List.filterMap_flatMap]
  generalize byName entries = sorted
  have hignored (out : List (Text × List WalkEvent)) :
      (out.map fun f => .ignoredFolder (above ++ [f.1])).filterMap WalkEvent.found? = [] := by
    simp [WalkEvent.found?]
  rw [hignored, List.nil_append]
  congr 1
  · induction sorted with
    | nil => rfl
    | cons e sorted ih =>
      obtain ⟨name, _ | events⟩ := e
      · cases h : w.keepsFile above name <;> simpa [h] using ih
      · simpa using ih
  · induction sorted with
    | nil => rfl
    | cons e sorted ih =>
      obtain ⟨name, _ | events⟩ := e
      · cases h : w.keepsFolder above name <;> simpa [h] using ih
      · cases h : w.skips name <;> cases h' : w.ignoresFolder (above ++ [name]) <;>
          simpa [WalkRules.keepsFolder, h, h'] using ih

namespace Node

/-- The files that a walk finds below a node at `above`. -/
def found (w : WalkRules) (above : List Text) (node : Node) : List (List Text) :=
  ((node.events? w above).getD []).filterMap WalkEvent.found?

@[simp] theorem found_file {bytes : List UInt8} : (file bytes).found w above = [] := by
  rw [found, events?]
  rfl

theorem isNone_events? {node : Node} : (node.events? w above).isNone = node.isFile := by
  cases node <;> rw [events?] <;> rfl

theorem entryEvents_eq_map {entries : List (Text × Node)} :
    entryEvents w above entries = entries.map fun e => (e.1, e.2.events? w (above ++ [e.1])) := by
  induction entries with
  | nil => rw [entryEvents]; rfl
  | cons e entries ih => rw [entryEvents, ih]; rfl

theorem found_folder {entries : List (Text × Node)} :
    (folder entries).found w above =
      (((byName entries).filter fun e => e.2.isFile && w.keepsFile above e.1).map
        fun e => above ++ [e.1]) ++
      ((byName entries).filter fun e => w.keepsFolder above e.1).flatMap
        fun e => e.2.found w (above ++ [e.1]) := by
  rw [found, events?, Option.getD_some, found_folderEvents, entryEvents_eq_map,
    byName_map (f := fun e : Text × Node => (e.1, e.2.events? w (above ++ [e.1]))) fun _ => rfl]
  simp only [List.filter_map, List.map_map, List.flatMap_map]
  simp only [Function.comp_def, isNone_events?]
  rfl

/-- What a walk finds is what it keeps of the files of the tree. -/
theorem mem_found {node : Node} {names : List Text} :
    names ∈ node.found w above ↔
      ∃ folders name, names = above ++ folders ++ [name] ∧ node.FileAt folders name ∧
        w.Keeps above folders name := by
  induction node using ofEntries generalizing above with
  | file bytes => simp
  | folder entries ih =>
    rw [found_folder, List.mem_append, List.mem_map, List.mem_flatMap]
    simp only [List.mem_filter, mem_byName, Bool.and_eq_true]
    constructor
    · rintro (⟨⟨name, node⟩, ⟨hmem, hfile, hkept⟩, rfl⟩ | ⟨⟨d, node⟩, ⟨hmem, hkept⟩, hnames⟩)
      · obtain ⟨bytes, rfl⟩ : ∃ bytes, node = file bytes := isFile_iff.1 hfile
        exact ⟨[], name, by simp, .here hmem, WalkRules.keepsFile_iff.1 hkept⟩
      · obtain ⟨folders, name, rfl, hat, hbelow⟩ := (ih _ hmem).1 hnames
        exact ⟨d :: folders, name, by simp, .inside hmem hat, WalkRules.keeps_cons.2 ⟨hkept, hbelow⟩⟩
    · rintro ⟨folders, name, rfl, hat, hkept⟩
      cases hat with
      | here hmem =>
        exact .inl ⟨(name, _), ⟨hmem, rfl, WalkRules.keepsFile_iff.2 hkept⟩, by simp⟩
      | inside hmem hat =>
        obtain ⟨hfolder, hbelow⟩ := WalkRules.keeps_cons.1 hkept
        exact .inr ⟨_, ⟨hmem, hfolder⟩, (ih _ hmem).2 ⟨_, name, by simp, hat, hbelow⟩⟩

end Node

end Found

/-! ## The order of what is found -/

/-- The order of a listing: in a folder the files by code point, then what is below its folders, these
    too by code point. -/
inductive Before : List Text → List Text → Prop where
  | files {f g : Text} : Precedes f g → Before [f] [g]
  | fileFirst {f d : Text} {below : List Text} : below ≠ [] → Before [f] (d :: below)
  | folders {d e : Text} {below below' : List Text} :
      Precedes d e → below ≠ [] → below' ≠ [] → Before (d :: below) (e :: below')
  | inside {d : Text} {names names' : List Text} : Before names names' → Before (d :: names) (d :: names')

namespace Before

theorem append_left {names names' : List Text} (h : Before names names') (above : List Text) :
    Before (above ++ names) (above ++ names') := by
  induction above with
  | nil => exact h
  | cons d above ih => exact .inside ih

theorem ne_nil_right {names names' : List Text} (h : Before names names') : names' ≠ [] := by
  cases h <;> simp

theorem ne_nil_left {names names' : List Text} (h : Before names names') : names ≠ [] := by
  cases h <;> simp

/-- Of two names one comes first. -/
theorem asymm {names names' : List Text} (h : Before names names') : ¬ Before names' names := by
  induction h with
  | files h =>
    intro h'
    cases h' with
    | files h' => exact h.asymm h'
    | fileFirst h' => exact h' rfl
    | folders _ h' => exact h' rfl
    | inside h' => exact h'.ne_nil_left rfl
  | fileFirst h =>
    intro h'
    cases h' with
    | files => exact h rfl
    | fileFirst => exact h rfl
    | folders _ _ h' => exact h' rfl
    | inside h' => exact h'.ne_nil_right rfl
  | folders h hne hne' =>
    intro h'
    cases h' with
    | files => exact hne rfl
    | fileFirst => exact hne' rfl
    | folders h' => exact h.asymm h'
    | inside => exact Precedes.irrefl _ h
  | inside h ih =>
    intro h'
    cases h' with
    | files => exact h.ne_nil_left rfl
    | fileFirst => exact h.ne_nil_right rfl
    | folders h' => exact Precedes.irrefl _ h'
    | inside h' => exact ih h'

end Before

namespace Node

/-- What a walk finds comes in the order of a listing. -/
theorem pairwise_found {w : WalkRules} {above : List Text} {node : Node} (h : node.Distinct) :
    (node.found w above).Pairwise Before := by
  induction h generalizing above with
  | file bytes => simp
  | @folder entries names nodes ih =>
    have hsorted := pairwise_byName names
    rw [found_folder, List.pairwise_append, List.pairwise_map, List.pairwise_flatMap]
    refine ⟨(hsorted.filter _).imp fun h => (Before.files h).append_left above,
      ⟨fun e he => ih e (mem_byName.1 (List.mem_filter.1 he).1),
        (hsorted.filter _).imp fun {d e} h x hx y hy => ?_⟩, fun x hx y hy => ?_⟩
    · obtain ⟨folders, name, rfl, -⟩ := mem_found.1 hx
      obtain ⟨folders', name', rfl, -⟩ := mem_found.1 hy
      simpa using (Before.folders h (by simp) (by simp)).append_left above
    · obtain ⟨e, -, rfl⟩ := List.mem_map.1 hx
      obtain ⟨d, -, hy⟩ := List.mem_flatMap.1 hy
      obtain ⟨folders, name, rfl, -⟩ := mem_found.1 hy
      simpa using (Before.fileFirst (by simp)).append_left above

theorem nodup_found {w : WalkRules} {above : List Text} {node : Node} (h : node.Distinct) :
    (node.found w above).Nodup :=
  (pairwise_found h).imp fun {x y} hxy he => by
    subst he
    exact hxy.asymm hxy

/-- How the entries of folders are listed changes nothing. -/
theorem found_reordered {w : WalkRules} {above : List Text} {node other : Node} (h : node.Distinct)
    (hother : node.Reordered other) : other.found w above = node.found w above := by
  have hdistinct := hother.distinct h
  have hperm : (other.found w above).Perm (node.found w above) := by
    rw [List.perm_ext_iff_of_nodup (nodup_found hdistinct) (nodup_found h)]
    intro names
    simp only [mem_found, hother.fileAt_iff]
  exact hperm.eq_of_pairwise (fun x y _ _ hxy hyx => absurd hyx hxy.asymm) (pairwise_found hdistinct)
    (pairwise_found h)

end Node

/-! ## The paths of a walk -/

theorem Path.append_inj {p : Path} {names names' : List Text} (h : p.append names = p.append names') :
    names = names' := by
  simpa [Path.append] using h

theorem filterMap_foundPath? (w : WalkRules) (root : Path) (start : Node) :
    (start.walk w).filterMap (Walk.foundPath? root) = (start.found w []).map root.append := by
  have hpath : Walk.foundPath? root = fun e => e.found?.map root.append := by
    funext e
    cases e <;> rfl
  rw [Node.walk, Node.found, List.map_filterMap, hpath]

/-- A walk gives the kept files of a tree and no others, each once, in the order of a listing, and in
    this order also when the entries of folders are listed in another one. -/
theorem foundPaths_of_distinct (w : WalkRules) (root : Path) {start : Node} (h : start.Distinct) :
    (∀ path, path ∈ (start.walk w).filterMap (Walk.foundPath? root) ↔
      ∃ folders name, path = root.append (folders ++ [name]) ∧ start.FileAt folders name ∧
        w.Keeps [] folders name) ∧
      ((start.walk w).filterMap (Walk.foundPath? root)).Nodup ∧
      (∃ listed : List (List Text), listed.Pairwise Before ∧
        (start.walk w).filterMap (Walk.foundPath? root) = listed.map root.append) ∧
      ∀ other, start.Reordered other →
        (other.walk w).filterMap (Walk.foundPath? root) =
          (start.walk w).filterMap (Walk.foundPath? root) := by
  simp only [filterMap_foundPath?]
  refine ⟨fun path => ?_, ?_, ⟨_, Node.pairwise_found h, rfl⟩, fun other hother => ?_⟩
  · simp only [List.mem_map, Node.mem_found, List.nil_append]
    constructor
    · rintro ⟨names, ⟨folders, name, rfl, hat, hkept⟩, rfl⟩
      exact ⟨folders, name, rfl, hat, hkept⟩
    · rintro ⟨folders, name, rfl, hat, hkept⟩
      exact ⟨_, ⟨folders, name, rfl, hat, hkept⟩, rfl⟩
  · exact List.pairwise_map.2 ((Node.nodup_found h).imp fun hne he => hne (Path.append_inj he))
  · rw [Node.found_reordered h hother]

/-- Files of one folder. -/
def groveFiles : List (Text × Node) :=
  [("skip.ml".toList, .file []), ("a.ml".toList, .file []), ("B.ML".toList, .file [])]

/-- A folder with these files beside files and folders of every kind. -/
def groveEntries (files : List (Text × Node)) : List (Text × Node) :=
  ("src".toList, .folder files) ::
    (["z.ml".toList, "readme".toList].map fun name => (name, .file [])) ++
    [".git".toList, "build".toList, "out".toList].map fun name => (name, .folder groveFiles)

/-- Rules that go into one of these folders and pass over one of its files. -/
def groveRules : WalkRules where
  suffixes := [".Ml".toList]
  ignoreDirs := ["build".toList]
  ignored path := path == "out/".toList || path == "src/skip.ml".toList

/-- A file in upper case is found once, also where both folders list their entries backwards. -/
theorem foundPaths_of_distinct_grove :
    (Node.folder (groveEntries groveFiles)).Distinct ∧
      (Node.folder (groveEntries groveFiles)).Reordered
        (.folder (groveEntries groveFiles.reverse).reverse) ∧
      (((Node.folder (groveEntries groveFiles.reverse).reverse).walk groveRules).filterMap
        (Walk.foundPath? ⟨[], ["r".toList]⟩)).count
          ⟨[], ["r".toList, "src".toList, "B.ML".toList]⟩ = 1 := by
  have hfiles : (Node.folder groveFiles).Distinct :=
    .folder (by decide) (by simp [groveFiles, Node.Distinct.file])
  have h : (Node.folder (groveEntries groveFiles)).Distinct :=
    .folder (by decide) (by simp [groveEntries, hfiles, Node.Distinct.file])
  have hturned : (Node.folder (groveEntries groveFiles)).Reordered
      (.folder (groveEntries groveFiles.reverse).reverse) :=
    .trans (@Node.Reordered.inside [] _ _ _ _ (.entries (List.reverse_perm groveFiles).symm))
      (.entries (List.reverse_perm _).symm)
  have hkept : groveRules.Keeps [] ["src".toList] "B.ML".toList := by
    rw [WalkRules.keeps_cons, ← WalkRules.keepsFile_iff]
    decide +kernel
  obtain ⟨hmem, hnodup, -, hsame⟩ := foundPaths_of_distinct groveRules ⟨[], ["r".toList]⟩ h
  refine ⟨h, hturned, ?_⟩
  rw [hsame _ hturned, hnodup.count, if_pos]
  exact (hmem _).2 ⟨["src".toList], "B.ML".toList, rfl,
    .inside List.mem_cons_self (.here (by simp [groveFiles]; rfl)), hkept⟩

end Synopsis
