import Mathlib.Data.List.Perm.Subperm
import Synopsis.Proofs.Nesting.Masked
import Synopsis.Proofs.Offset.Java

/-!
# Java: groups and masked literals

A text is a row of literals and of characters between them. `IsLiteral` says what a literal is, and
`LiteralMarks` which characters of a text belong to one. Every text has exactly one such table of marks,
and it can be computed (`literalMarks_iff`).

1. `balancedAt_masked`: a group ends where the balanced span ends once all literals are masked.
2. `groupEnd_respelled`: so it ends at the same place when the literals are spelled differently, with other
   characters that do not quote, escape or end the line.
3. `literalEnd_bounds`: behind a literal one is further on and still in the text.
-/

namespace Synopsis.Java

open Text

/-! ## Literals -/

/-- Three quotes, which open and close a text block. -/
def blockQuotes : Text := "\"\"\"".toList

/-- `run` is what follows the opening quote of a literal before `rest`: escaped and other characters up to
    a quote of the same kind, or up to the end of the line or the text. -/
inductive QuotedRun (quote : Char) : (run rest : Text) → Prop
  | close (rest : Text) : QuotedRun quote [quote] rest
  | lineEnd (rest : Text) : QuotedRun quote ['\n'] rest
  | textEnd : QuotedRun quote [] []
  | loneEscape : QuotedRun quote ['\\'] []
  | escape (c : Char) {run rest : Text} : QuotedRun quote run rest →
      QuotedRun quote ('\\' :: c :: run) rest
  | plain {c : Char} {run rest : Text} : c ≠ '\\' → c ≠ quote → c ≠ '\n' → QuotedRun quote run rest →
      QuotedRun quote (c :: run) rest

/-- `run` is what follows the opening quotes of a text block before `rest`: escaped and other characters up
    to the next three quotes, or up to the end of the text. -/
inductive BlockRun : (run rest : Text) → Prop
  | close (rest : Text) : BlockRun blockQuotes rest
  | textEnd : BlockRun [] []
  | loneEscape : BlockRun ['\\'] []
  | escape (c : Char) {run rest : Text} : BlockRun run rest → BlockRun ('\\' :: c :: run) rest
  | plain {c : Char} {run rest : Text} : c ≠ '\\' → ¬ blockQuotes <+: c :: (run ++ rest) →
      BlockRun run rest → BlockRun (c :: run) rest

/-- `literal` is the literal at the front of a text that goes on with `rest`. -/
inductive IsLiteral : (literal rest : Text) → Prop
  | quoted {quote : Char} {run rest : Text} : isQuote quote = true →
      ¬ blockQuotes <+: quote :: (run ++ rest) → QuotedRun quote run rest → IsLiteral (quote :: run) rest
  | block {run rest : Text} : BlockRun run rest → IsLiteral (blockQuotes ++ run) rest

theorem blockQuotes_prefix_iff {c : Char} {t : Text} :
    blockQuotes <+: c :: t ↔ ∃ u, c = '"' ∧ t = '"' :: '"' :: u := by
  constructor
  · rintro ⟨u, hu⟩
    obtain ⟨hc, ht⟩ := List.cons.inj hu
    exact ⟨u, hc.symm, ht.symm⟩
  · rintro ⟨u, rfl, rfl⟩
    exact ⟨u, rfl⟩

section Runs

variable {run rest : Text}

theorem afterQuoted_of_run {quote : Char} (hquote : isQuote quote = true)
    (h : QuotedRun quote run rest) : afterQuoted quote (run ++ rest) = rest := by
  have hne : quote ≠ '\\' := by
    rintro rfl
    cases hquote
  induction h with
  | close rest => simp [afterQuoted_cons hne]
  | lineEnd rest => simp [afterQuoted_cons]
  | textEnd => rfl
  | loneEscape => rfl
  | escape c _ ih => exact ih
  | plain hc hq hn _ ih => simpa [afterQuoted_cons hc, hq, hn] using ih

theorem exists_quotedRun (quote : Char) (t : Text) :
    ∃ run, t = run ++ afterQuoted quote t ∧ QuotedRun quote run (afterQuoted quote t) := by
  fun_induction afterQuoted quote t with
  | case1 => exact ⟨[], rfl, .textEnd⟩
  | case2 => exact ⟨['\\'], rfl, .loneEscape⟩
  | case3 c t ih =>
    obtain ⟨run, ht, hrun⟩ := ih
    exact ⟨'\\' :: c :: run, congrArg (fun s => '\\' :: c :: s) ht, .escape c hrun⟩
  | case4 c t _ _ hend =>
    rcases Bool.or_eq_true_iff.1 hend with hc | hc
    · obtain rfl := of_decide_eq_true hc
      exact ⟨[c], rfl, .close t⟩
    · obtain rfl := of_decide_eq_true hc
      exact ⟨['\n'], rfl, .lineEnd t⟩
  | case5 c t hlast hescape hend ih =>
    obtain ⟨run, ht, hrun⟩ := ih
    obtain ⟨hquote, hline⟩ : c ≠ quote ∧ c ≠ '\n' := by simpa using hend
    exact ⟨c :: run, congrArg (c :: ·) ht, .plain (ne_escape hlast hescape) hquote hline hrun⟩

theorem afterTextBlock_of_run (h : BlockRun run rest) : afterTextBlock (run ++ rest) = rest := by
  induction h with
  | close rest => rfl
  | textEnd => rfl
  | loneEscape => rfl
  | escape c _ ih => exact ih
  | plain hc hquotes _ ih =>
    rw [List.cons_append, afterTextBlock]
    · exact ih
    · simp [hc]
    · simp [hc]
    · intro u hquote hu
      exact hquotes (blockQuotes_prefix_iff.2 ⟨u, hquote, hu⟩)

theorem exists_blockRun (t : Text) :
    ∃ run, t = run ++ afterTextBlock t ∧ BlockRun run (afterTextBlock t) := by
  fun_induction afterTextBlock t with
  | case1 => exact ⟨[], rfl, .textEnd⟩
  | case2 => exact ⟨['\\'], rfl, .loneEscape⟩
  | case3 c t ih =>
    obtain ⟨run, ht, hrun⟩ := ih
    exact ⟨'\\' :: c :: run, congrArg (fun s => '\\' :: c :: s) ht, .escape c hrun⟩
  | case4 t => exact ⟨blockQuotes, rfl, .close t⟩
  | case5 c t hlast hescape hclose ih =>
    obtain ⟨run, ht, hrun⟩ := ih
    have hquotes : ¬ blockQuotes <+: c :: (run ++ afterTextBlock t) := by
      rw [← ht, blockQuotes_prefix_iff]
      rintro ⟨u, hc, hu⟩
      exact hclose u hc hu
    exact ⟨c :: run, congrArg (c :: ·) ht, .plain (ne_escape hlast hescape) hquotes hrun⟩

end Runs

theorem afterLiteral_cons {c : Char} {t : Text} (h : ¬ blockQuotes <+: c :: t) :
    afterLiteral (c :: t) = afterQuoted c t := by
  rw [afterLiteral]
  rintro u rfl rfl
  exact h (blockQuotes_prefix_iff.2 ⟨u, rfl, rfl⟩)

namespace IsLiteral

variable {s t : Text}

theorem afterLiteral_append (h : IsLiteral s t) : afterLiteral (s ++ t) = t := by
  cases h with
  | quoted hquote hblock hrun =>
    rw [List.cons_append, afterLiteral_cons hblock, afterQuoted_of_run hquote hrun]
  | block hrun =>
    rw [List.append_assoc]
    exact afterTextBlock_of_run hrun

theorem exists_cons (h : IsLiteral s t) : ∃ c run, s = c :: run ∧ isQuote c = true := by
  cases h with
  | quoted hquote _ _ => exact ⟨_, _, rfl, hquote⟩
  | block _ => exact ⟨'"', _, rfl, rfl⟩

end IsLiteral

/-- Where a quote stands, a literal begins. -/
theorem exists_isLiteral {c : Char} (hc : isQuote c = true) (t : Text) :
    ∃ s, c :: t = s ++ afterLiteral (c :: t) ∧ IsLiteral s (afterLiteral (c :: t)) := by
  by_cases hblock : blockQuotes <+: c :: t
  · obtain ⟨u, rfl, rfl⟩ := blockQuotes_prefix_iff.1 hblock
    obtain ⟨run, hu, hrun⟩ := exists_blockRun u
    exact ⟨blockQuotes ++ run, congrArg (blockQuotes ++ ·) hu, .block hrun⟩
  · obtain ⟨run, ht, hrun⟩ := exists_quotedRun c t
    rw [afterLiteral_cons hblock]
    exact ⟨c :: run, congrArg (c :: ·) ht, .quoted hc (by rwa [← ht]) hrun⟩

/-! ## The characters of the literals -/

/-- Marks the characters of a text that belong to its literals, read from its beginning. -/
inductive LiteralMarks : Text → List Bool → Prop
  | nil : LiteralMarks [] []
  | code {c : Char} {t : Text} {marks : List Bool} : isQuote c = false → LiteralMarks t marks →
      LiteralMarks (c :: t) (false :: marks)
  | literal {s t : Text} {marks : List Bool} : IsLiteral s t → LiteralMarks t marks →
      LiteralMarks (s ++ t) (List.replicate s.length true ++ marks)

/-- The marks of a text of which the first `skip` characters belong to a literal. -/
def literalMarks : (skip : Nat) → Text → List Bool
  | _, [] => []
  | n + 1, _ :: cs => true :: literalMarks n cs
  | 0, c :: cs =>
    if isQuote c then true :: literalMarks (literalTail (c :: cs)) cs else false :: literalMarks 0 cs

theorem literalMarks_skip (s t : Text) :
    literalMarks s.length (s ++ t) = List.replicate s.length true ++ literalMarks 0 t := by
  induction s with
  | nil => rfl
  | cons c s ih => rw [List.length_cons, List.cons_append, literalMarks, ih]; rfl

theorem literalMarks_literal {s t : Text} (h : IsLiteral s t) :
    literalMarks 0 (s ++ t) = List.replicate s.length true ++ literalMarks 0 t := by
  have hafter := h.afterLiteral_append
  obtain ⟨c, run, rfl, hc⟩ := h.exists_cons
  have htail : literalTail (c :: (run ++ t)) = run.length := by
    rw [List.cons_append] at hafter
    rw [literalTail, hafter, List.length_cons, List.length_append]
    omega
  rw [List.cons_append, literalMarks, if_pos hc, htail, literalMarks_skip]
  rfl

theorem literalMarks_sound (t : Text) : LiteralMarks t (literalMarks 0 t) := by
  -- by the length of what is left, since a literal is passed in one step
  induction hlen : t.length using Nat.strongRecOn generalizing t with
  | ind n ih =>
    cases t with
    | nil => exact .nil
    | cons c t =>
      by_cases hc : isQuote c = true
      · obtain ⟨s, hs, hliteral⟩ := exists_isLiteral hc t
        have hshort := (Offset.Java.suffix_afterLiteral c t).length_le
        rw [List.length_cons] at hlen
        rw [hs, literalMarks_literal hliteral]
        exact .literal hliteral (ih _ (by omega) _ rfl)
      · rw [literalMarks, if_neg hc]
        exact .code (Bool.eq_false_iff.2 hc) (ih t.length (by rw [← hlen, List.length_cons]; omega) t rfl)

/-- Every text has one table of marks. -/
theorem literalMarks_iff {t : Text} {marks : List Bool} :
    LiteralMarks t marks ↔ literalMarks 0 t = marks := by
  constructor
  · intro h
    induction h with
    | nil => rfl
    | code hc _ ih => rw [literalMarks, hc, if_neg Bool.false_ne_true, ih]
    | literal hliteral _ ih => rw [literalMarks_literal hliteral, ih]
  · rintro rfl
    exact literalMarks_sound t

instance (t : Text) (marks : List Bool) : Decidable (LiteralMarks t marks) :=
  decidable_of_iff _ literalMarks_iff.symm

/-- An escaped quote ends no literal, and the end of the line ends one. -/
example : LiteralMarks "a'\\'';\"b\n;".toList
    [false, true, true, true, true, false, true, true, true, false] := by decide

/-- Marks the characters of a text that belong to the literals met from an offset on. -/
def LiteralsFrom (start : Nat) (t : Text) (marks : List Bool) : Prop :=
  ∃ found, LiteralMarks (t.drop start) found ∧ marks = List.replicate start false ++ found

theorem literalsFrom_iff {start : Nat} {t : Text} {marks : List Bool} :
    LiteralsFrom start t marks ↔ List.replicate start false ++ literalMarks 0 (t.drop start) = marks := by
  constructor
  · rintro ⟨found, hfound, rfl⟩
    rw [literalMarks_iff.1 hfound]
  · rintro rfl
    exact ⟨_, literalMarks_sound (t.drop start), rfl⟩

instance (start : Nat) (t : Text) (marks : List Bool) : Decidable (LiteralsFrom start t marks) :=
  decidable_of_iff _ literalsFrom_iff.symm

theorem existsUnique_literalsFrom (start : Nat) (t : Text) : ∃! marks, LiteralsFrom start t marks :=
  ⟨_, literalsFrom_iff.2 rfl, fun _ h => (literalsFrom_iff.1 h).symm⟩

theorem LiteralsFrom.drop {start : Nat} {t : Text} {marks : List Bool} (h : LiteralsFrom start t marks) :
    LiteralMarks (t.drop start) (marks.drop start) := by
  obtain ⟨found, hfound, rfl⟩ := h
  rwa [List.drop_left' List.length_replicate]

/-- What stands at an offset, if it is no quote, belongs to no literal met from there on. -/
theorem LiteralsFrom.getElem?_start {start : Nat} {t : Text} {marks : List Bool} {c : Char}
    (h : LiteralsFrom start t marks) (hstart : t[start]? = some c) (hc : isQuote c = false) :
    marks[start]? = some false := by
  obtain ⟨z, hz⟩ := exists_drop_of_getElem? hstart
  have hmarks := literalMarks_iff.1 h.drop
  rw [hz, literalMarks, hc, if_neg Bool.false_ne_true] at hmarks
  rw [← List.head?_drop, ← hmarks, List.head?_cons]

/-! ## Groups -/

/-- The offset just past the group at an offset. -/
def groupEnd (opener closer : Char) (t : Text) (start : Nat) : Nat :=
  t.length - (group opener closer (t.drop start)).2.length

section Groups

variable {opener closer n : Char}

/-- A group and the span of the masked text go on together behind every character and every literal. -/
theorem length_spanFrom_masked (ho : n ≠ opener) (hc : n ≠ closer) {t : Text} {marks : List Bool}
    (h : LiteralMarks t marks) {d : Nat} (hd : 1 ≤ d) :
    (spanFrom opener closer d (masked n marks t)).1.length = (groupFrom opener closer 0 d t).1.length := by
  induction h generalizing d with
  | nil => rfl
  | @code c t marks hquote _ ih =>
    rw [masked_cons, if_neg Bool.false_ne_true, spanFrom, groupFrom, hquote, if_neg Bool.false_ne_true]
    split
    · have hopen := ih (d := d + 1) (by omega)
      rw [Int.natCast_add] at hopen
      exact congrArg (· + 1) hopen
    · split
      · by_cases hone : d = 1
        · rw [if_pos hone, if_pos (by omega)]
        · have hclose := ih (d := d - 1) (by omega)
          rw [Int.natCast_sub hd] at hclose
          rw [if_neg hone, if_neg (by omega)]
          exact congrArg (· + 1) hclose
      · exact congrArg (· + 1) (ih hd)
  | @literal s t marks hliteral _ ih =>
    have hafter := hliteral.afterLiteral_append
    obtain ⟨c, run, rfl, hquote⟩ := hliteral.exists_cons
    have hgroup := groupFrom_literal opener closer d hquote hafter
    have hneutral : depthAfter opener closer d (List.replicate (c :: run).length n) = some d :=
      depthAfter_of_not_mem (fun hmem => ho (List.eq_of_mem_replicate hmem).symm)
        (fun hmem => hc (List.eq_of_mem_replicate hmem).symm) d
    rw [masked_append_replicate, spanFrom_of_depthAfter hneutral, List.cons_append, hgroup,
      List.length_append, List.length_append, List.length_replicate, ih hd]

theorem length_balanced_masked (hopener : isQuote opener = false) (ho : n ≠ opener) (hc : n ≠ closer)
    {z : Text} {marks : List Bool} (h : LiteralMarks (opener :: z) marks) :
    (balanced opener closer (masked n marks (opener :: z))).1.length =
      (group opener closer (opener :: z)).1.length := by
  obtain rfl := literalMarks_iff.1 h
  have hspan := length_spanFrom_masked ho hc (literalMarks_sound z) (Nat.le_refl 1)
  rw [literalMarks, hopener, if_neg Bool.false_ne_true, masked_cons, if_neg Bool.false_ne_true, balanced,
    if_pos List.head?_cons, spanFrom, if_pos rfl, group, groupFrom, hopener, if_neg Bool.false_ne_true,
    if_pos rfl]
  exact congrArg (· + 1) hspan

theorem groupEnd_eq {t : Text} {start : Nat} (h : start ≤ t.length) :
    groupEnd opener closer t start = start + (group opener closer (t.drop start)).1.length := by
  have hlen := congrArg List.length (groupFrom_append opener closer 0 0 (t.drop start))
  rw [List.length_append, List.length_drop] at hlen
  rw [groupEnd, group]
  omega

/-- A group ends where the balanced span ends in the text without literals. -/
theorem balancedAt_masked (hopener : isQuote opener = false) (ho : n ≠ opener) (hc : n ≠ closer)
    {t : Text} {start : Nat} {marks : List Bool} (hstart : t[start]? = some opener)
    (h : LiteralsFrom start t marks) :
    balancedAt [opener] [closer] (masked n marks t) start =
      .ok (slice (masked n marks t) start (groupEnd opener closer t start),
        groupEnd opener closer t start) := by
  obtain ⟨z, hz⟩ := exists_drop_of_getElem? hstart
  have hmarks := h.drop
  rw [hz] at hmarks
  rw [groupEnd_eq (List.getElem?_eq_some_iff.1 hstart).1.le, hz]
  refine balancedAt_of_length ?_
  rw [drop_masked, hz, length_balanced_masked hopener ho hc hmarks]

end Groups

/-! ## Other spellings of the literals -/

/-- A character that does not quote, escape or end the line. -/
def isSpelling (c : Char) : Bool := !(isQuote c || c == '\\' || c == '\n')

/-- The same text, but that marked characters may be replaced: one that only spells by another one. -/
structure Respelled (marks : List Bool) (t u : Text) : Prop where
  length_eq : u.length = t.length
  replaced : ∀ (j : Nat) (a b : Char), t[j]? = some a → u[j]? = some b → a ≠ b →
    marks[j]? = some true ∧ isSpelling a = true ∧ isSpelling b = true

theorem respelled_iff {marks : List Bool} {t u : Text} : Respelled marks t u ↔ u.length = t.length ∧
    ∀ j < t.length, t[j]? = u[j]? ∨
      marks[j]? = some true ∧ t[j]?.any isSpelling = true ∧ u[j]?.any isSpelling = true := by
  constructor
  · rintro ⟨hlength, hreplaced⟩
    refine ⟨hlength, fun j hj => or_iff_not_imp_left.2 fun hne => ?_⟩
    have ht := List.getElem?_eq_getElem hj
    have hu := List.getElem?_eq_getElem (show j < u.length by rwa [hlength])
    rw [ht, hu] at hne ⊢
    exact hreplaced j _ _ ht hu (mt (congrArg some) hne)
  · rintro ⟨hlength, hall⟩
    refine ⟨hlength, fun j a b ha hb hne => ?_⟩
    have hj := hall j (List.getElem?_eq_some_iff.1 ha).1
    rw [ha, hb] at hj
    exact hj.resolve_left (mt Option.some.inj hne)

instance (marks : List Bool) (t u : Text) : Decidable (Respelled marks t u) :=
  decidable_of_iff _ respelled_iff.symm

/-- A character with its spelling left out. -/
def outline (c : Char) : Char := if isSpelling c then 'x' else c

theorem outline_eq_iff {c x : Char} (hx : isSpelling x = false) : outline c = x ↔ c = x := by
  have hne {c : Char} (hc : isSpelling c = true) : c ≠ x := by
    rintro rfl
    cases hx.symm.trans hc
  rw [outline]
  split
  · next hc => exact iff_of_false (hne rfl) (hne hc)
  · rfl

theorem isQuote_outline (c : Char) : isQuote (outline c) = isQuote c := by
  rw [outline]
  split
  · next hc =>
    cases hquote : isQuote c with
    | false => rfl
    | true =>
      rw [isSpelling, hquote] at hc
      cases hc
  · rfl

theorem map_outline_eq_iff {s t : Text} (hs : ∀ x ∈ s, isSpelling x = false) :
    t.map outline = s ↔ t = s := by
  induction s generalizing t with
  | nil => exact List.map_eq_nil_iff
  | cons x s ih =>
    cases t with
    | nil => simp
    | cons c t =>
      rw [List.map_cons, List.cons.injEq, List.cons.injEq, outline_eq_iff (hs x List.mem_cons_self),
        ih fun y hy => hs y (List.mem_cons_of_mem x hy)]

theorem blockQuotes_prefix_map_outline {t : Text} :
    blockQuotes <+: t.map outline ↔ blockQuotes <+: t := by
  have hquotes : ∀ x ∈ blockQuotes, isSpelling x = false := by
    intro x hx
    obtain rfl : x = '"' := List.eq_of_mem_replicate (n := 3) hx
    rfl
  constructor
  · rintro ⟨u, hu⟩
    obtain ⟨a, b, rfl, ha, -⟩ := List.map_eq_append_iff.1 hu.symm
    exact ⟨b, by rw [(map_outline_eq_iff hquotes).1 ha]⟩
  · rintro ⟨u, rfl⟩
    exact ⟨u.map outline, by rw [List.map_append, (map_outline_eq_iff hquotes).2 rfl]⟩

section Outline

variable {run rest s t : Text}

theorem QuotedRun.map_outline {quote : Char} (hquote : isSpelling quote = false)
    (h : QuotedRun quote run rest) : QuotedRun quote (run.map outline) (rest.map outline) := by
  induction h with
  | close rest =>
    rw [List.map_singleton, (outline_eq_iff hquote).2 rfl]
    exact .close _
  | lineEnd rest => exact .lineEnd _
  | textEnd => exact .textEnd
  | loneEscape => exact .loneEscape
  | escape c _ ih => exact .escape (outline c) ih
  | plain hc hq hn _ ih =>
    exact .plain (mt (outline_eq_iff rfl).1 hc) (mt (outline_eq_iff hquote).1 hq)
      (mt (outline_eq_iff rfl).1 hn) ih

theorem BlockRun.map_outline (h : BlockRun run rest) :
    BlockRun (run.map outline) (rest.map outline) := by
  induction h with
  | close rest => exact .close _
  | textEnd => exact .textEnd
  | loneEscape => exact .loneEscape
  | escape c _ ih => exact .escape (outline c) ih
  | plain hc hquotes _ ih =>
    rw [← blockQuotes_prefix_map_outline, List.map_cons, List.map_append] at hquotes
    exact .plain (mt (outline_eq_iff rfl).1 hc) hquotes ih

theorem IsLiteral.map_outline (h : IsLiteral s t) : IsLiteral (s.map outline) (t.map outline) := by
  cases h with
  | @quoted quote run _ hquote hblock hrun =>
    have hspelling : isSpelling quote = false := by simp [isSpelling, hquote]
    rw [← blockQuotes_prefix_map_outline, List.map_cons, List.map_append,
      (outline_eq_iff hspelling).2 rfl] at hblock
    rw [List.map_cons, (outline_eq_iff hspelling).2 rfl]
    exact .quoted hquote hblock (hrun.map_outline hspelling)
  | block hrun =>
    rw [List.map_append]
    exact .block hrun.map_outline

/-- The literals of a text do not depend on what they spell. -/
theorem LiteralMarks.map_outline {marks : List Bool} (h : LiteralMarks t marks) :
    LiteralMarks (t.map outline) marks := by
  induction h with
  | nil => exact .nil
  | code hc _ ih => exact .code (by rwa [isQuote_outline]) ih
  | @literal s t marks hliteral _ ih =>
    have hmapped := LiteralMarks.literal hliteral.map_outline ih
    rwa [List.length_map, ← List.map_append] at hmapped

end Outline

namespace Respelled

variable {marks : List Bool} {t u : Text} {start : Nat}

theorem map_outline_eq (h : Respelled marks t u) : u.map outline = t.map outline := by
  refine List.ext_getElem (by simp [h.length_eq]) fun j hu ht => ?_
  rw [List.length_map] at hu ht
  rw [List.getElem_map, List.getElem_map]
  by_cases heq : t[j] = u[j]
  · rw [heq]
  · obtain ⟨-, ha, hb⟩ := h.replaced j _ _ (List.getElem?_eq_getElem ht) (List.getElem?_eq_getElem hu) heq
    rw [outline, outline, if_pos ha, if_pos hb]

/-- Both spellings have their literals in the same places. -/
theorem literalsFrom (h : Respelled marks t u) (hmarks : LiteralsFrom start t marks) :
    LiteralsFrom start u marks := by
  have houtline (v : Text) :
      literalMarks 0 ((v.map outline).drop start) = literalMarks 0 (v.drop start) := by
    rw [← List.map_drop]
    exact literalMarks_iff.1 (literalMarks_sound (v.drop start)).map_outline
  rw [literalsFrom_iff] at hmarks ⊢
  rw [← houtline, h.map_outline_eq, houtline, hmarks]

theorem masked_eq (h : Respelled marks t u) (n : Char) : masked n marks u = masked n marks t :=
  masked_congr h.length_eq fun j a b ha hb hne => (h.replaced j a b ha hb hne).1

theorem getElem?_eq (h : Respelled marks t u) {j : Nat} (hj : marks[j]? ≠ some true) : u[j]? = t[j]? := by
  cases ht : t[j]? with
  | none =>
    rw [List.getElem?_eq_none_iff] at ht ⊢
    rwa [h.length_eq]
  | some a =>
    have hlt : j < u.length := by
      rw [h.length_eq]
      exact (List.getElem?_eq_some_iff.1 ht).1
    rw [List.getElem?_eq_getElem hlt, Option.some.injEq]
    by_contra hne
    exact hj (h.replaced j a _ ht (List.getElem?_eq_getElem hlt) (Ne.symm hne)).1

end Respelled

/-- Of three letters one is neither of two characters. -/
theorem exists_neutral (a b : Char) : ∃ n : Char, n ≠ a ∧ n ≠ b := by
  by_contra hnone
  have hsubset : ['x', 'y', 'z'] ⊆ [a, b] := by
    intro n _
    by_contra hn
    simp only [List.mem_cons, List.not_mem_nil, or_false, not_or] at hn
    exact hnone ⟨n, hn⟩
  have hlength := (List.subperm_of_subset (by decide) hsubset).length_le
  exact absurd hlength (by decide : ¬ 3 ≤ 2)

/-- A group ends at the same place however the literals in it are spelled. -/
theorem groupEnd_respelled {opener closer : Char} (hopener : isQuote opener = false) {t u : Text}
    {start : Nat} {marks : List Bool} (hstart : t[start]? = some opener)
    (hmarks : LiteralsFrom start t marks) (h : Respelled marks t u) :
    groupEnd opener closer u start = groupEnd opener closer t start := by
  obtain ⟨n, ho, hc⟩ := exists_neutral opener closer
  have hsame : u[start]? = some opener := by
    rw [h.getElem?_eq (by rw [hmarks.getElem?_start hstart hopener]; decide), hstart]
  have hspan : balancedAt [opener] [closer] (masked n marks u) start = _ :=
    balancedAt_masked hopener ho hc hsame (h.literalsFrom hmarks)
  rw [h.masked_eq, balancedAt_masked hopener ho hc hstart hmarks, Except.ok.injEq, Prod.mk.injEq] at hspan
  exact (Int.natCast_inj.1 hspan.2).symm

/-! ## Behind a literal -/

theorem literalEnd_bounds {t : Text} {start : Nat} (h : start < t.length) :
    ∃ stop, literalEnd t start = .ok stop ∧ start < stop ∧ stop ≤ t.length := by
  have hdrop := List.drop_eq_getElem_cons h
  have hrest := (Offset.Java.suffix_afterLiteral t[start] (t.drop (start + 1))).length_le
  rw [List.length_drop] at hrest
  refine ⟨_, if_pos h, ?_, Nat.sub_le _ _⟩
  rw [hdrop]
  omega

end Synopsis.Java
