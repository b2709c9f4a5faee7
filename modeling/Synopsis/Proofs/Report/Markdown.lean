import Mathlib.Data.List.TakeWhile
import Synopsis.Proofs.Text.Blank
import Synopsis.Report.Markdown

/-!
# Reading the code back from the Markdown

A reader of the section of a file takes every line that starts with three backticks for the start or
the end of a block (`blocksFrom`). Between blocks other lines change at most the heading
(`exists_blocksFrom_append`), inside a block they are kept (`blocksFrom_some_append`), and so a fenced
block of such lines is read back with its heading (`blocksFrom_fencedBlock`). The code is arbitrary text
and is written as it is: it is read back up to its first line that starts with three backticks, hence as
a whole exactly if it has no such line (`sourceBlock_markdown`).
-/

namespace Synopsis

open Text

/-! ## Blocks -/

/-- The lines of a text; a text without line ends is one line. -/
def linesOf (t : Text) : List Text := t.splitOn '\n'

/-- Whether a line opens or closes a block. -/
def isFence (line : Text) : Bool := fence.isPrefixOf line

/-- Whether a line is a heading. -/
def isHeading (line : Text) : Bool := line.head? == some '#'

/-- A fenced block and the heading it stands under. -/
structure Block where
  heading : Text
  lines : List Text
deriving DecidableEq, Repr

/-- The blocks of a list of lines, below a heading and inside a block or not. A block that is never
    closed reaches to the end. -/
def blocksFrom (heading : Text) : Option (List Text) → List Text → List Block
  | none, [] => []
  | some body, [] => [⟨heading, body⟩]
  | none, l :: ls =>
    if isFence l then blocksFrom heading (some []) ls
    else blocksFrom (if isHeading l then l else heading) none ls
  | some body, l :: ls =>
    if isFence l then ⟨heading, body⟩ :: blocksFrom heading none ls
    else blocksFrom heading (some (body ++ [l])) ls

/-- The blocks of a document. -/
def blocks (t : Text) : List Block := blocksFrom [] none (linesOf t)

/-- The lines of the first block under the heading of the code. -/
def FileReport.sourceBlock? (f : FileReport) : Option (List Text) :=
  ((blocks f.markdown).find? (·.heading == "### Full Source".toList)).map Block.lines

/-- No line is a fence. -/
abbrev Fenceless (ls : List Text) : Prop := ∀ l ∈ ls, isFence l = false

variable {heading : Text} {body ls rest : List Text}

theorem isFence_fence_append (t : Text) : isFence (fence ++ t) = true :=
  List.isPrefixOf_iff_prefix.2 (List.prefix_append fence t)

theorem isFence_of_beginning {l t : Text} (h : l <+: t) (ht : isFence t = false) : isFence l = false := by
  rw [isFence, Bool.eq_false_iff, Ne, List.isPrefixOf_iff_prefix] at ht ⊢
  exact fun hl => ht (hl.trans h)

theorem isFence_of_isHeading {l : Text} (h : isHeading l = true) : isFence l = false := by
  cases l with
  | nil => cases h
  | cons c l =>
    obtain rfl : c = '#' := by simpa [isHeading] using h
    rfl

/-! ## The lines of a section -/

theorem linesOf_of_not_mem {t : Text} (h : '\n' ∉ t) : linesOf t = [t] := List.splitOn_eq_singleton h

/-- The pieces of a text are read one after the other. -/
theorem linesOf_join {p : Text} {ps : List Text} :
    linesOf (join "\n" (p :: ps)) = (p :: ps).flatMap linesOf := by
  induction ps generalizing p with
  | nil => simp [join_singleton]
  | cons q ps ih =>
    rw [join_cons_cons, List.flatMap_cons, ← ih]
    exact List.splitOn_append_cons_self p _

theorem linesOf_append_cons {l : Text} (h : '\n' ∉ l) (t : Text) :
    linesOf (l ++ '\n' :: t) = l :: linesOf t := by
  have hcut : linesOf (l ++ '\n' :: t) = linesOf l ++ linesOf t := List.splitOn_append_cons_self l t
  rw [hcut, linesOf_of_not_mem h, List.singleton_append]

/-- The first line of a text is a beginning of it. -/
theorem exists_linesOf_eq_cons (t : Text) : ∃ l ls, linesOf t = l :: ls ∧ l <+: t := by
  by_cases h : '\n' ∈ t
  · obtain ⟨l, u, rfl, hl⟩ := List.eq_append_cons_of_mem h
    exact ⟨l, linesOf u, linesOf_append_cons hl u, List.prefix_append l _⟩
  · exact ⟨t, [], linesOf_of_not_mem h, List.prefix_refl t⟩

/-- What stands in front of a text changes its first line only. -/
theorem tail_linesOf_append {u : Text} (hu : '\n' ∉ u) (t : Text) :
    (linesOf (u ++ t)).tail = (linesOf t).tail := by
  by_cases h : '\n' ∈ t
  · obtain ⟨l, v, rfl, hl⟩ := List.eq_append_cons_of_mem h
    rw [← List.append_assoc, linesOf_append_cons (List.not_mem_append hu hl), linesOf_append_cons hl,
      List.tail_cons, List.tail_cons]
  · rw [linesOf_of_not_mem (List.not_mem_append hu h), linesOf_of_not_mem h, List.tail_cons,
      List.tail_cons]

/-- No line of a text but its first is a fence. -/
abbrev Quiet (t : Text) : Prop := Fenceless (linesOf t).tail

theorem fenceless_linesOf {t : Text} (hquiet : Quiet t) (h : isFence t = false) :
    Fenceless (linesOf t) := by
  obtain ⟨l, ls, hlines, hfirst⟩ := exists_linesOf_eq_cons t
  rw [Quiet, hlines] at hquiet
  rw [hlines]
  exact List.forall_mem_cons.2 ⟨isFence_of_beginning hfirst h, hquiet⟩

theorem isFence_line (s : Signature) : isFence s.line = false := by
  have hlead : ∃ c t, s.line = c :: t ∧ c ≠ '\x60' := by
    unfold Signature.line
    cases s.isAsync
    · exact ⟨'f', _, rfl, by decide⟩
    · exact ⟨'a', _, rfl, by decide⟩
  obtain ⟨c, t, hline, hc⟩ := hlead
  rw [hline, isFence, fence]
  simp [List.isPrefixOf, Ne.symm hc]

/-! ## Reading a section -/

/-- Between blocks, lines that are no fence change nothing but the heading. -/
theorem exists_blocksFrom_append (heading : Text) (h : Fenceless ls) :
    ∃ heading', ∀ rest, blocksFrom heading none (ls ++ rest) = blocksFrom heading' none rest := by
  induction ls generalizing heading with
  | nil => exact ⟨heading, fun _ => rfl⟩
  | cons l ls ih =>
    obtain ⟨hl, hls⟩ := List.forall_mem_cons.1 h
    obtain ⟨heading', ih⟩ := ih (if isHeading l then l else heading) hls
    refine ⟨heading', fun rest => ?_⟩
    rw [List.cons_append, blocksFrom, hl]
    exact ih rest

/-- Inside a block, lines that are no fence are kept. -/
theorem blocksFrom_some_append (h : Fenceless ls) :
    blocksFrom heading (some body) (ls ++ rest) = blocksFrom heading (some (body ++ ls)) rest := by
  induction ls generalizing body with
  | nil => rw [List.nil_append, List.append_nil]
  | cons l ls ih =>
    obtain ⟨hl, hls⟩ := List.forall_mem_cons.1 h
    rw [List.cons_append, blocksFrom, hl]
    simp only [Bool.false_eq_true, if_false]
    rw [ih hls, List.append_assoc, List.singleton_append]

theorem blocksFrom_some_fence :
    blocksFrom heading (some body) (fence :: rest) = ⟨heading, body⟩ :: blocksFrom heading none rest := by
  have hfence : isFence fence = true := rfl
  rw [blocksFrom, hfence, if_pos rfl]

theorem blocksFrom_opening {title : Text} (h : isHeading title = true) (language : Text) :
    blocksFrom heading none (title :: [] :: (fence ++ language) :: rest) =
      blocksFrom title (some []) rest := by
  simp only [blocksFrom, isFence_of_isHeading h, h, isFence_fence_append, if_true, Bool.false_eq_true,
    if_false]
  rfl

/-- A block ends at its first fence, wherever that comes from. -/
theorem exists_blocksFrom_some_append (ls rest : List Text) :
    ∃ bs, blocksFrom heading (some []) (ls ++ fence :: rest) =
      ⟨heading, ls.takeWhile (!isFence ·)⟩ :: bs := by
  have hkept : Fenceless (ls.takeWhile (!isFence ·)) := fun l hl => by
    simpa using List.all_eq_true.1 List.all_takeWhile l hl
  have hcut : ls.takeWhile (!isFence ·) ++ ls.dropWhile (!isFence ·) = ls :=
    List.takeWhile_append_dropWhile
  conv => enter [1, bs, 1]; rw [← hcut, List.append_assoc, blocksFrom_some_append hkept, List.nil_append]
  cases hrest : ls.dropWhile (!isFence ·) with
  | nil => exact ⟨_, blocksFrom_some_fence⟩
  | cons l us =>
    have hfence : isFence l = true := by
      have hhead := List.head?_dropWhile_not (fun l => !isFence l) ls
      rw [hrest] at hhead
      simpa using hhead
    rw [List.cons_append, blocksFrom, hfence, if_pos rfl]
    exact ⟨_, rfl⟩

section Blocks

variable {title language : Text} {pieces : List Text}

theorem linesOf_fencedBlock (htitle : '\n' ∉ title) (hlanguage : '\n' ∉ language) :
    (fencedBlock title language pieces).flatMap linesOf =
      title :: [] :: (fence ++ language) :: (pieces.flatMap linesOf ++ [fence, []]) := by
  have hopen : '\n' ∉ fence ++ language := List.not_mem_append (by decide) hlanguage
  simp [fencedBlock, linesOf_of_not_mem htitle, linesOf_of_not_mem hopen,
    linesOf_of_not_mem (t := fence) (by decide), linesOf_of_not_mem List.not_mem_nil]

/-- A fenced block of lines that are no fence is read back. -/
theorem blocksFrom_fencedBlock (hheading : isHeading title = true) (htitle : '\n' ∉ title)
    (hlanguage : '\n' ∉ language) (h : Fenceless (pieces.flatMap linesOf)) :
    blocksFrom heading none ((fencedBlock title language pieces).flatMap linesOf ++ rest) =
      ⟨title, pieces.flatMap linesOf⟩ :: blocksFrom title none rest := by
  rw [linesOf_fencedBlock htitle hlanguage, List.cons_append, List.cons_append, List.cons_append,
    blocksFrom_opening hheading, List.append_assoc, blocksFrom_some_append h, List.nil_append]
  exact blocksFrom_some_fence

/-- A fenced block of any lines is read back up to the first of them that is a fence. -/
theorem exists_blocksFrom_fencedBlock (hheading : isHeading title = true) (htitle : '\n' ∉ title)
    (hlanguage : '\n' ∉ language) (rest : List Text) :
    ∃ bs, blocksFrom heading none ((fencedBlock title language pieces).flatMap linesOf ++ rest) =
      ⟨title, (pieces.flatMap linesOf).takeWhile (!isFence ·)⟩ :: bs := by
  rw [linesOf_fencedBlock htitle hlanguage, List.cons_append, List.cons_append, List.cons_append,
    blocksFrom_opening hheading, List.append_assoc]
  exact exists_blocksFrom_some_append _ _

end Blocks

/-! ## The code of a file -/

/-- The lines of a code without the line ends that close it. -/
def codeLines (code : Text) : List Text := linesOf (dropTrailing (· == '\n') code)

/-- A file with signatures, in which nothing but the code can be mistaken for a fence. -/
structure FileReport.Plain (f : FileReport) : Prop where
  signatures : f.signatures ≠ []
  line : ∀ s ∈ f.signatures, Quiet s.line
  path : Quiet f.path
  language : '\n' ∉ f.language

variable {f : FileReport} {code : Text}

theorem fenceless_lines (hf : f.Plain) :
    Fenceless ((f.signatures.map Signature.line).flatMap linesOf) := by
  intro l hl
  obtain ⟨t, ht, hl⟩ := List.mem_flatMap.1 hl
  obtain ⟨s, hs, rfl⟩ := List.mem_map.1 ht
  exact fenceless_linesOf (hf.line s hs) (isFence_line s) l hl

/-- A section is a title that opens no block, the block of the signatures and the block of the code. -/
theorem exists_linesOf_markdown (hf : f.Plain) (hcode : f.code = some code) (hne : code ≠ []) :
    ∃ title, Fenceless title ∧ linesOf f.markdown = title ++
      ((fencedBlock "### Function Signatures".toList f.language
          (f.signatures.map Signature.line)).flatMap linesOf ++
        ((fencedBlock "### Full Source".toList f.language
          [dropTrailing (· == '\n') code]).flatMap linesOf ++ [[]])) := by
  have hquiet : Quiet ("## ".toList ++ f.path) := by
    rw [Quiet, tail_linesOf_append (by decide)]
    exact hf.path
  have htitle : Fenceless (linesOf ("## ".toList ++ f.path) ++ [[]]) :=
    List.forall_mem_append.2 ⟨fenceless_linesOf hquiet rfl, List.forall_mem_singleton.2 rfl⟩
  have hpresent : present? f.code = some code := by
    rw [hcode]
    exact nonempty?_eq_some.2 ⟨hne, rfl⟩
  have hsignatures : f.signatures.isEmpty = false := List.isEmpty_eq_false_iff.2 hf.signatures
  refine ⟨_, htitle, ?_⟩
  unfold FileReport.markdown FileReport.sectionLines
  simp only [hpresent, hsignatures, Bool.false_eq_true, if_false, List.cons_append, List.nil_append]
  rw [linesOf_join]
  simp [linesOf_of_not_mem List.not_mem_nil]

/-- Whatever the code is, the block of the signatures is read back and the block of the code is opened. -/
theorem blocks_markdown (hf : f.Plain) (hcode : f.code = some code) (hne : code ≠ []) :
    blocks f.markdown =
      ⟨"### Function Signatures".toList, (f.signatures.map Signature.line).flatMap linesOf⟩ ::
        blocksFrom "### Function Signatures".toList none
          ((fencedBlock "### Full Source".toList f.language
            [dropTrailing (· == '\n') code]).flatMap linesOf ++ [[]]) := by
  obtain ⟨title, htitle, hlines⟩ := exists_linesOf_markdown hf hcode hne
  obtain ⟨heading, hskip⟩ := exists_blocksFrom_append [] htitle
  rw [blocks, hlines, hskip]
  exact blocksFrom_fencedBlock rfl (by decide) hf.language (fenceless_lines hf)

/-- The code is read back up to its first line that starts with three backticks. So it is read back as
    a whole exactly if it has no such line, and then a section is its two blocks. -/
theorem sourceBlock_markdown (hf : f.Plain) (hcode : f.code = some code) (hne : code ≠ []) :
    f.sourceBlock? = some ((codeLines code).takeWhile (!isFence ·)) ∧
      (f.sourceBlock? = some (codeLines code) ↔ Fenceless (codeLines code)) ∧
      (Fenceless (codeLines code) → blocks f.markdown =
        [⟨"### Function Signatures".toList, (f.signatures.map Signature.line).flatMap linesOf⟩,
          ⟨"### Full Source".toList, codeLines code⟩]) := by
  have hpieces : [dropTrailing (· == '\n') code].flatMap linesOf = codeLines code :=
    List.flatMap_singleton _ _
  have hread : f.sourceBlock? = some ((codeLines code).takeWhile (!isFence ·)) := by
    obtain ⟨bs, hbs⟩ : ∃ bs, blocksFrom "### Function Signatures".toList none
        ((fencedBlock "### Full Source".toList f.language
          [dropTrailing (· == '\n') code]).flatMap linesOf ++ [[]]) =
        ⟨"### Full Source".toList, (codeLines code).takeWhile (!isFence ·)⟩ :: bs :=
      hpieces ▸ exists_blocksFrom_fencedBlock rfl (by decide) hf.language [[]]
    rw [FileReport.sourceBlock?, blocks_markdown hf hcode hne, hbs]
    rfl
  refine ⟨hread, ?_, fun h => ?_⟩
  · rw [hread, Option.some_inj, List.takeWhile_eq_self_iff]
    simp
  · rw [blocks_markdown hf hcode hne,
      blocksFrom_fencedBlock rfl (by decide) hf.language (hpieces.symm ▸ h), hpieces]
    rfl

/-- A file whose code shows a fence in a comment, behind a mark. -/
def quotedFence : FileReport where
  path := "f.py".toList
  language := "python".toList
  signatures := [{ name := "f".toList }]
  code := some "# \x60\x60\x60\ndef f(): pass\n\n".toList

/-- The code is read back without the line ends that close it. -/
theorem sourceBlock_markdown_quotedFence :
    quotedFence.sourceBlock? = some ["# \x60\x60\x60".toList, "def f(): pass".toList] := by
  have hplain : quotedFence.Plain :=
    ⟨by decide, by decide +kernel, by decide +kernel, by decide⟩
  have hread := sourceBlock_markdown hplain rfl (by decide)
  exact hread.2.1.2 (by decide +kernel)

/-- The same file with a fence at the start of a line of its code. -/
def bareFence : FileReport :=
  { quotedFence with code := some "\"\"\"\n\x60\x60\x60\nf()\n\"\"\"\ndef f(): pass\n".toList }

/-- The same file with a fence in the second line of its path. -/
def fencePath : FileReport := { quotedFence with path := "f\n\x60\x60\x60.py".toList }

/-- The same file with a second signature, which has a fence in its second line. -/
def fenceLine : FileReport :=
  { quotedFence with signatures := [{ name := "f".toList }, { name := "g\n\x60\x60\x60".toList }] }

/-- The same file with a language of two lines. -/
def brokenLanguage : FileReport := { quotedFence with language := "python\n3".toList }

/-- Each of these files has a signature of one line, and its code is not read back. -/
theorem sourceBlock_markdown_bareFence :
    (∀ f ∈ [bareFence, fencePath, fenceLine, brokenLanguage],
      (∃ s ∈ f.signatures, '\n' ∉ s.line) ∧ f.sourceBlock? ≠ f.code.map codeLines) ∧
    bareFence.sourceBlock? = some ["\"\"\"".toList] ∧
    bareFence.code.map codeLines =
      some ["\"\"\"".toList, fence, "f()".toList, "\"\"\"".toList, "def f(): pass".toList] := by
  decide +kernel

end Synopsis
