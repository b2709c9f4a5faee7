import Synopsis.Language.RustSignature
import Synopsis.Proofs.Nesting.Piece
import Synopsis.Proofs.Text.Reader

/-!
# Rust: the parts of a header survive being written on one line

Generics, receivers and return types are read twice: in the source, with blanks and line ends as they
stand, and in the written item. Each part is shown to read the same both times:

* `generics_collapse`: the collapsed generics are closed by their last bracket and nowhere before;
* `receiver?_collapse`, `parameter_canonicalReceiver`: a receiver stays one, and writing it in the
  canonical way keeps the parameter;
* `returnType_arrow`: a return type written after an arrow is read as it was written.
-/

namespace Synopsis.Rust

open Text Brackets

/-! ## Generics -/

/-- The depth after one character of generics, unless it closes them. -/
def angleStep (d : Nat) (prev : Option Char) (c : Char) : Option Nat :=
  if c = '<' then some (d + 1)
  else if c = '>' && prev ≠ some '-' then if d = 1 then none else some (d - 1)
  else some d

/-- Whether the last character of a text, and none before it, closes the generics that are `depth`
    deep at its start. -/
def closesAtEnd : (depth : Nat) → (prev : Option Char) → Text → Bool
  | _, _, [] => false
  | d, prev, c :: cs => match angleStep d prev c with
    | some e => closesAtEnd e (some c) cs
    | none => cs.isEmpty

theorem genericsFrom_cons (d : Nat) (prev : Option Char) (c : Char) (cs : Text) :
    genericsFrom d prev (c :: cs) = match angleStep d prev c with
      | some e => keep c (genericsFrom e (some c) cs)
      | none => ([c], cs) := by
  rw [genericsFrom, angleStep]
  split
  · rfl
  · split
    · split <;> rfl
    · rfl

theorem genericsFrom_append {d : Nat} {prev : Option Char} {s : Text}
    (h : closesAtEnd d prev s = true) (t : Text) : genericsFrom d prev (s ++ t) = (s, t) := by
  induction s generalizing d prev with
  | nil => cases h
  | cons c s ih =>
    rw [closesAtEnd] at h
    rw [List.cons_append, genericsFrom_cons]
    cases hstep : angleStep d prev c with
    | some e =>
      rw [hstep] at h
      simp only [ih h]
      rfl
    | none =>
      rw [hstep] at h
      obtain rfl := List.isEmpty_iff.1 h
      rfl

/-- Generics with something after them were closed. -/
theorem closesAtEnd_of_genericsFrom {d : Nat} {prev : Option Char} {t s r : Text}
    (h : genericsFrom d prev t = (s, r)) (hr : r ≠ []) :
    t = s ++ r ∧ closesAtEnd d prev s = true := by
  induction t generalizing d prev s with
  | nil =>
    obtain ⟨rfl, rfl⟩ := Prod.mk.inj h
    exact absurd rfl hr
  | cons c cs ih =>
    rw [genericsFrom_cons] at h
    cases hstep : angleStep d prev c with
    | some e =>
      simp only [hstep] at h
      obtain ⟨rfl, rfl⟩ := Prod.mk.inj h
      obtain ⟨hcs, hclose⟩ := ih rfl
      exact ⟨congrArg (c :: ·) hcs, by rw [closesAtEnd, hstep]; exact hclose⟩
    | none =>
      simp only [hstep] at h
      obtain ⟨rfl, rfl⟩ := Prod.mk.inj h
      exact ⟨rfl, by rw [closesAtEnd, hstep]; rfl⟩

theorem getLast?_of_closesAtEnd {d : Nat} {prev : Option Char} {s : Text}
    (h : closesAtEnd d prev s = true) : s.getLast? = some '>' := by
  induction s generalizing d prev with
  | nil => cases h
  | cons c s ih =>
    rw [closesAtEnd] at h
    cases hstep : angleStep d prev c with
    | some e =>
      rw [hstep] at h
      rw [List.getLast?_cons, ih h]
      rfl
    | none =>
      rw [hstep] at h
      obtain rfl := List.isEmpty_iff.1 h
      rw [angleStep] at hstep
      split at hstep
      · cases hstep
      · split at hstep
        · next hclose => simp_all
        · cases hstep

theorem closesAtEnd_cons_of_blank {c : Char} (hc : isBlank c = true) (d : Nat)
    (prev : Option Char) (t : Text) : closesAtEnd d prev (c :: t) = closesAtEnd d none t := by
  have hopen : c ≠ '<' := ne_of_blank hc (by decide)
  have hclose : c ≠ '>' := ne_of_blank hc (by decide)
  have hdash : c ≠ '-' := ne_of_blank hc (by decide)
  rw [closesAtEnd, angleStep, if_neg hopen, if_neg (by simp [hclose])]
  cases t with
  | nil => rfl
  | cons x t => simp [closesAtEnd, angleStep, hdash]

theorem closesAtEnd_squeeze (d : Nat) (prev : Option Char) (t : Text) :
    closesAtEnd d prev (squeeze t) = closesAtEnd d prev t := by
  fun_induction squeeze t generalizing d prev with
  | case1 => rfl
  | case2 c cs hc hd ih =>
    cases cs with
    | nil => simp at hd
    | cons x xs =>
      have hx : isBlank x = true := by simpa using hd
      rw [ih, closesAtEnd_cons_of_blank hc, closesAtEnd_cons_of_blank hx,
        closesAtEnd_cons_of_blank hx]
  | case3 c cs hc hd ih =>
    rw [closesAtEnd_cons_of_blank isBlank_space, closesAtEnd_cons_of_blank hc, ih]
  | case4 c cs hc ih =>
    simp only [closesAtEnd, ih, isEmpty_squeeze]

theorem head?_generics (t : Text) : (generics t).1.head?.all (· == '<') = true := by
  rw [generics]
  split
  · next hopen =>
    obtain ⟨t, rfl⟩ := List.head?_eq_some_iff.1 hopen
    rfl
  · rfl

/-- Generics that were closed are read again, collapsed, in front of any other text. -/
theorem generics_collapse {t own r : Text} (h : generics t = (own, r)) (hr : r ≠ []) {u : Text}
    (hu : u.head? ≠ some '<') : generics (collapse own ++ u) = (collapse own, u) := by
  rw [generics] at h
  split at h
  · next hopen =>
    obtain ⟨rfl, hclose⟩ := closesAtEnd_of_genericsFrom h hr
    have hlast := getLast?_of_closesAtEnd hclose
    have hfirst : own.head? = some '<' := by
      cases own with
      | nil => cases hlast
      | cons c own => simpa using hopen
    have htrim : trim own = own := by
      rw [trim_eq_self_iff, hfirst, hlast]
      decide
    have hfirst' : (collapse own).head? = some '<' := by
      obtain ⟨own', rfl⟩ := List.head?_eq_some_iff.1 hfirst
      rw [collapse_eq_squeeze htrim, squeeze_cons_of_not (by decide)]
      rfl
    rw [generics, if_pos (by rw [List.head?_append, hfirst']; rfl)]
    refine genericsFrom_append ?_ u
    rw [collapse_eq_squeeze htrim, closesAtEnd_squeeze, hclose]
  · obtain ⟨rfl, rfl⟩ := Prod.mk.inj h
    rw [collapse_nil, List.nil_append, generics, if_neg hu]

/-! ## Receivers -/

theorem skipLifetime_squeeze (t : Text) : skipLifetime (squeeze t) = squeeze (skipLifetime t) := by
  rw [skipLifetime, char?_squeeze (by decide), skipLifetime]
  cases char? '\'' t with
  | none => rfl
  | some u =>
    simp only [Option.map_some, Option.bind_some, word?_squeeze]
    cases word? u with
    | none => rfl
    | some m =>
      simp only [Option.map_some, Option.bind_some, skip1?_isBlank_squeeze]
      cases skip1? isBlank m.2 <;> rfl

theorem reference_squeeze (t : Text) :
    reference (squeeze t) = ((reference t).1, squeeze (reference t).2) := by
  rw [reference, char?_squeeze (by decide), reference]
  cases char? '&' t with
  | none => rfl
  | some u => simp only [Option.map_some, trimStart_squeeze, skipLifetime_squeeze]

theorem suffix_skipLifetime (t : Text) : skipLifetime t <:+ t := by
  have hskip : skipLifetime t =
      (((char? '\'' t).bind word?).bind fun m => skip1? isBlank m.2).getD t := rfl
  rw [hskip]
  cases h : ((char? '\'' t).bind word?).bind fun m => skip1? isBlank m.2 with
  | none => exact List.suffix_refl t
  | some rest =>
    obtain ⟨⟨r, u⟩, hword, hskip⟩ := Option.bind_eq_some_iff.1 h
    obtain ⟨v, hchar, hrun⟩ := Option.bind_eq_some_iff.1 hword
    exact (suffix_of_skip1? hskip).trans ((suffix_of_run? hrun).trans (suffix_of_after? hchar))

theorem suffix_reference (t : Text) : (reference t).2 <:+ t := by
  rw [reference]
  split
  · next u h =>
    exact (suffix_skipLifetime _).trans ((suffix_trimStart u).trans (suffix_of_after? h))
  · exact List.suffix_refl t

theorem plainReceiver?_squeeze {t : Text} (h : trim t = t) :
    plainReceiver? (squeeze t) = plainReceiver? t := by
  rw [plainReceiver?, plainReceiver?]
  simp only [reference_squeeze, flag_squeeze (show "mut".toList.any isBlank = false by decide),
    after?_squeeze (show "self".toList.any isBlank = false by decide)]
  cases hself : after? "self".toList (flag "mut" (reference t).2).2 with
  | none => rfl
  | some u =>
    have hu : u <:+ t :=
      (suffix_of_after? hself).trans ((suffix_flag _ _).trans (suffix_reference t))
    -- what follows `self` ends as the parameter does, so it is no lone line end
    have hline : u ≠ ['\n'] := by
      rintro rfl
      obtain ⟨v, rfl⟩ := hu
      have hlast := (trim_eq_self_iff.1 h).2
      rw [List.getLast?_concat] at hlast
      exact absurd hlast (by decide)
    have hline' : squeeze u ≠ ['\n'] := by
      intro he
      have hmem : '\n' ∈ squeeze u := by rw [he]; exact List.mem_singleton.2 rfl
      exact absurd (eq_space_of_mem_squeeze hmem isBlank_newline) (by decide)
    simp [squeeze_eq_nil_iff, hline, hline']

theorem typedReceiver?_squeeze {t : Text} :
    typedReceiver? (squeeze t) = typedReceiver? t := by
  rw [typedReceiver?, flag_squeeze (by decide), after?_squeeze (by decide), typedReceiver?]
  cases after? "self".toList (flag "mut" t).2 with
  | none => rfl
  | some u =>
    simp only [Option.map_some, Option.bind_eq_bind, Option.bind_some, trimStart_squeeze,
      char?_squeeze (show isBlank ':' = false by decide)]
    cases char? ':' (trimStart u) with
    | none => rfl
    | some v =>
      simp only [Option.map_some, Option.bind_some, isEmpty_squeeze, trim_squeeze, reference_squeeze,
        wholeWord?_squeeze (show "mut".toList.any isBlank = false by decide), Option.isSome_map]

/-- A trimmed parameter and its collapsed form declare the same receiver. -/
theorem receiver?_collapse {t : Text} (h : trim t = t) : receiver? (collapse t) = receiver? t := by
  rw [collapse_eq_squeeze h, receiver?, plainReceiver?_squeeze h, typedReceiver?_squeeze, receiver?]

theorem isSome_receiver?_text (r : Receiver) : (receiver? r.text).isSome = true := by
  cases r <;> decide

theorem isSome_receiver?_canonicalReceiver (t : Text) :
    (receiver? (canonicalReceiver t)).isSome = (receiver? t).isSome := by
  rw [canonicalReceiver]
  cases h : receiver? t with
  | none => rw [Option.map_none, Option.getD_none, h]
  | some r => exact isSome_receiver?_text r

/-- Writing a receiver in the canonical way keeps the parameter. -/
theorem parameter_canonicalReceiver (t : Text) : parameter (canonicalReceiver t) = parameter t := by
  cases h : receiver? t with
  | none => rw [canonicalReceiver, h]; rfl
  | some r =>
    have hsome : (receiver? t).isSome = true := by rw [h]; rfl
    rw [parameter, if_pos (by rw [isSome_receiver?_canonicalReceiver, hsome]), parameter,
      if_pos hsome]

/-! ## Return types -/

/-- Whether no `where` clause starts in a text that stands between `prev` and `next`. -/
def whereFree (next : Text) : (prev : Option Char) → Text → Bool
  | _, [] => true
  | prev, c :: cs =>
    !(notAfter isWord prev && (wholeWord? "where" (c :: cs ++ next)).isSome) &&
      whereFree next (some c) cs

theorem whereAt?_eq_none_iff {prev : Option Char} {k : Nat} {t : Text} :
    whereAt? ⟨prev, k, t⟩ = none ↔
      (notAfter isWord prev && (wholeWord? "where" t).isSome) = false := by
  rw [whereAt?, Place.isWordStart]
  cases notAfter isWord prev <;> simp

/-- A text is free of `where` clauses, or it is cut before the first, which no word character
    precedes. -/
theorem breakFrom_whereAt?_cases (prev : Option Char) (k : Nat) (t : Text) :
    (breakFrom whereAt? prev k t = none ∧ whereFree [] prev t = true) ∨
      ∃ s next r, t = s ++ next ∧ breakFrom whereAt? prev k t = some (s, r) ∧
        whereFree next prev s = true ∧ notAfter isWord (s.getLast?.or prev) = true := by
  induction t generalizing prev k with
  | nil => exact .inl ⟨rfl, rfl⟩
  | cons c cs ih =>
    rw [breakFrom]
    cases hat : whereAt? ⟨prev, k, c :: cs⟩ with
    | some r =>
      refine .inr ⟨[], c :: cs, r, rfl, rfl, rfl, ?_⟩
      rw [whereAt?, Place.isWordStart] at hat
      split at hat
      · next h => exact h
      · cases hat
    | none =>
      -- The place itself is free, so the cut is where it is in the rest.
      have hno := whereAt?_eq_none_iff.1 hat
      rcases ih (some c) (k + 1) with ⟨hnone, hfree⟩ | ⟨s, next, r, rfl, hcut, hfree, hlast⟩
      · refine .inl ⟨by rw [hnone]; rfl, ?_⟩
        rw [whereFree, List.append_nil, hno, hfree]
        rfl
      · refine .inr ⟨c :: s, next, r, rfl, by rw [hcut]; rfl, ?_, ?_⟩
        · rw [whereFree, List.cons_append, hno, hfree]
          rfl
        · rw [List.getLast?_cons]
          cases hs : s.getLast? <;> simpa [hs] using hlast

theorem whereFree_append {next : Text} {prev : Option Char} {s t : Text}
    (h : whereFree next prev (s ++ t) = true) :
    whereFree (t ++ next) prev s = true ∧ whereFree next (s.getLast?.or prev) t = true := by
  induction s generalizing prev with
  | nil => exact ⟨rfl, h⟩
  | cons c s ih =>
    rw [List.cons_append, whereFree, Bool.and_eq_true] at h
    obtain ⟨hs, ht⟩ := ih h.2
    constructor
    · rw [whereFree, hs, Bool.and_true, List.cons_append, ← List.append_assoc, ← List.cons_append]
      exact h.1
    · rw [List.getLast?_cons]
      cases hl : s.getLast? <;> simpa [hl] using ht

theorem breakFrom_whereAt?_eq_none {prev : Option Char} {t : Text}
    (h : whereFree [] prev t = true) (k : Nat) : breakFrom whereAt? prev k t = none := by
  induction t generalizing prev k with
  | nil => rfl
  | cons c cs ih =>
    rw [whereFree, Bool.and_eq_true, List.append_nil] at h
    rw [breakFrom, whereAt?_eq_none_iff.2 (by simpa only [Bool.not_eq_true'] using h.1)]
    simp only [ih h.2]
    rfl

theorem beforeWhere_eq_self {t : Text} (h : whereFree [] none t = true) : beforeWhere t = t := by
  rw [beforeWhere, breakAt?, breakFrom_whereAt?_eq_none h]
  rfl

/-- A cut at the edge of a word leaves no `where` behind that was not there. -/
theorem whereFree_of_edge {next : Text} {prev : Option Char} {s : Text}
    (h : whereFree next prev s = true)
    (hedge : notBefore isWord next = true ∨ notAfter isWord (s.getLast?.or prev) = true) :
    whereFree [] prev s = true := by
  induction s generalizing prev with
  | nil => rfl
  | cons c s ih =>
    rw [whereFree, Bool.and_eq_true] at h ⊢
    have hedge' : notBefore isWord next = true ∨
        notAfter isWord (s.getLast?.or (some c)) = true := by
      refine hedge.imp_right fun hlast => ?_
      rw [List.getLast?_cons] at hlast
      cases hl : s.getLast? <;> simpa [hl] using hlast
    refine ⟨?_, ih h.2 hedge'⟩
    rw [List.append_nil]
    cases hw : wholeWord? "where" (c :: s) with
    | none => simp
    | some r =>
      obtain ⟨hafter, hend⟩ := Option.filter_eq_some_iff.1 hw
      have hs := after?_eq_some.1 hafter
      -- the word stands in the longer text too, unless it goes on there
      have hwhole : wholeWord? "where" (c :: s ++ next) = some (r ++ next) := by
        refine Option.filter_eq_some_iff.2 ⟨?_, ?_⟩
        · rw [hs, List.append_assoc, after?_append]
        · cases r with
          | cons d r => exact hend
          | nil =>
            rcases hedge with hnext | hlast
            · exact hnext
            · rw [hs] at hlast
              have he : notAfter isWord (some 'e') = true := hlast
              exact absurd he (by decide)
      rw [hwhole] at h
      simpa using h.1

theorem whereFree_beforeWhere (t : Text) : whereFree [] none (beforeWhere t) = true := by
  rw [beforeWhere, breakAt?]
  rcases breakFrom_whereAt?_cases none 0 t with ⟨hnone, hfree⟩ | ⟨s, next, r, rfl, hcut, hfree, hlast⟩
  · rw [hnone]
    exact hfree
  · rw [hcut]
    exact whereFree_of_edge hfree (.inr hlast)

theorem notAfter_isWord_of_blank {c : Char} (hc : isBlank c = true) :
    notAfter isWord (some c) = true := by
  simp [notAfter, isWord_of_blank hc]

theorem whereFree_congr {p q : Option Char} (h : notAfter isWord p = notAfter isWord q)
    (next t : Text) : whereFree next p t = whereFree next q t := by
  cases t with
  | nil => rfl
  | cons c t => rw [whereFree, whereFree, h]

theorem whereFree_cons_of_blank {c : Char} (hc : isBlank c = true) (prev : Option Char)
    (next t : Text) : whereFree next prev (c :: t) = whereFree next none t := by
  have hw : wholeWord? "where" (c :: t ++ next) = none := by
    rw [wholeWord?, after?_eq_none_of_head (c := 'w') rfl]
    · rfl
    · rintro ⟨⟩
      exact absurd hc (by decide)
  rw [whereFree, hw, whereFree_congr (q := none) (notAfter_isWord_of_blank hc)]
  simp

theorem whereFree_squeeze (prev : Option Char) (t : Text) :
    whereFree [] prev (squeeze t) = whereFree [] prev t := by
  fun_induction squeeze t generalizing prev with
  | case1 => rfl
  | case2 c cs hc hd ih =>
    cases cs with
    | nil => simp at hd
    | cons x xs =>
      have hx : isBlank x = true := by simpa using hd
      rw [ih, whereFree_cons_of_blank hc, whereFree_cons_of_blank hx, whereFree_cons_of_blank hx]
  | case3 c cs hc hd ih =>
    rw [whereFree_cons_of_blank isBlank_space, whereFree_cons_of_blank hc, ih]
  | case4 c cs hc ih =>
    have hsq : c :: squeeze cs = squeeze (c :: cs) :=
      (squeeze_cons_of_not (by simpa using hc) cs).symm
    rw [whereFree, whereFree, ih, List.append_nil, List.append_nil, hsq,
      wholeWord?_squeeze (by decide), Option.isSome_map]

/-- Collapsing a text without `where` clauses brings none in. -/
theorem whereFree_collapse {t : Text} (h : whereFree [] none t = true) :
    whereFree [] none (collapse t) = true := by
  obtain ⟨g, g', hg, hg', ht⟩ := exists_trim t
  rw [ht, List.append_assoc] at h
  have hcalm : notAfter isWord (g.getLast?.or none) = true := by
    cases hl : g.getLast? with
    | none => rfl
    | some c => exact notAfter_isWord_of_blank (List.all_eq_true.1 hg c (List.mem_of_getLast? hl))
  have hrest := (whereFree_append h).2
  rw [whereFree_congr (q := none) hcalm] at hrest
  have hedge : notBefore isWord (g' ++ []) = true := by
    cases g' with
    | nil => rfl
    | cons c g' =>
      simp [notBefore, isWord_of_blank (Bool.and_eq_true_iff.1 hg').1]
  rw [collapse_eq_squeeze_trim, whereFree_squeeze]
  exact whereFree_of_edge (whereFree_append hrest).1 (.inl hedge)

/-- What may be written after an arrow: on one line, with no `where` clause and no brace or semicolon
    outside brackets. -/
structure IsReturnType (r : Text) : Prop where
  ne_nil : r ≠ []
  collapsed : collapse r = r
  whereFree : whereFree [] none r = true
  unbroken : noCurly.breakTopFrom (fun c => c == '{' || c == ';') 0 none r = none

theorem stop_of_blank (c : Char) (h : isBlank c = true) : (c == '{' || c == ';') = false := by
  have hbrace : c ≠ '{' := ne_of_blank h (by decide)
  have hsemicolon : c ≠ ';' := ne_of_blank h (by decide)
  simp [hbrace, hsemicolon]

theorem isReturnType_of_returnType {t r : Text} (h : returnType t = some r) : IsReturnType r := by
  rw [returnType] at h
  obtain ⟨u, -, h⟩ := Option.bind_eq_some_iff.1 h
  -- the type is a part of what precedes the `where` clause, cut off at the edge of a word
  have hpart (s next : Text) (hs : beforeWhere u = s ++ next) (hedge : notBefore isWord next = true) :
      whereFree [] none s = true := by
    have hfree := whereFree_beforeWhere u
    rw [hs] at hfree
    exact whereFree_of_edge (whereFree_append hfree).1 (.inl (by simpa using hedge))
  have hdone (s : Text) (hfree : whereFree [] none s = true)
      (hbreak : noCurly.breakTopFrom (fun c => c == '{' || c == ';') 0 none s = none)
      (hr : nonempty? (collapse s) = some r) : IsReturnType r := by
    obtain ⟨hne, rfl⟩ := nonempty?_eq_some.1 hr
    exact ⟨hne, collapse_collapse s, whereFree_collapse hfree,
      breakTopFrom_collapse usual_noCurly stop_of_blank hbreak⟩
  cases hcut : noCurly.breakTopFrom (fun c => c == '{' || c == ';') 0 none (beforeWhere u) with
  | some m =>
    obtain ⟨c, hu, hc, hnone⟩ := eq_append_of_breakTopFrom hcut
    have hedge : notBefore isWord (c :: m.2) = true := by
      rcases Bool.or_eq_true_iff.1 hc with hc | hc
      · obtain rfl : c = '{' := by simpa using hc
        rfl
      · obtain rfl : c = ';' := by simpa using hc
        rfl
    simp only [hcut] at h
    exact hdone m.1 (hpart m.1 _ hu hedge) hnone h
  | none =>
    have hline : beforeWhere u = before '\n' (beforeWhere u) ++
        (beforeWhere u).dropWhile (· ≠ '\n') := List.takeWhile_append_dropWhile.symm
    have hedge : notBefore isWord ((beforeWhere u).dropWhile (· ≠ '\n')) = true := by
      cases hd : (beforeWhere u).dropWhile fun c => decide (c ≠ '\n') with
      | nil => rfl
      | cons c cs =>
        have hhead := not_of_head?_dropWhile (congrArg List.head? hd)
        obtain rfl : c = '\n' := by simpa using hhead
        rfl
    simp only [hcut] at h
    rw [hline] at hcut
    exact hdone _ (hpart _ _ hline hedge) (breakTopFrom_of_append hcut) h

/-- A return type written after an arrow is read as it was written. -/
theorem IsReturnType.returnType_arrow {r : Text} (h : IsReturnType r) :
    returnType (" -> ".toList ++ r) = some r := by
  have harrow : after? "->".toList (trimStart (" -> ".toList ++ r)) = some (' ' :: r) :=
    after?_append "->".toList (' ' :: r)
  have hwhere : beforeWhere (' ' :: r) = ' ' :: r :=
    beforeWhere_eq_self (by rw [whereFree_cons_of_blank isBlank_space, h.whereFree])
  have hbreak : noCurly.breakTopFrom (fun c => c == '{' || c == ';') 0 none (' ' :: r) = none := by
    rw [breakTopFrom_cons_of_blank usual_noCurly stop_of_blank isBlank_space, h.unbroken]
    rfl
  have hline : before '\n' (' ' :: r) = ' ' :: r := by
    refine before_eq_self fun hmem => ?_
    rcases List.mem_cons.1 hmem with he | hmem
    · exact absurd he (by decide)
    · exact newline_not_mem_collapse r (h.collapsed.symm ▸ hmem)
  rw [returnType, harrow]
  simp only [Option.bind_eq_bind, Option.bind_some, hwhere, hbreak, hline,
    collapse_cons_of_blank isBlank_space, h.collapsed, nonempty?_of_ne_nil h.ne_nil]

/-! ## Owners -/

theorem isName_of_implOwner? {header name : Text} (h : implOwner? header = some name) :
    isName name = true := by
  simp only [implOwner?] at h
  split at h
  · next hname =>
    obtain rfl := Option.some.inj h
    exact hname
  · cases h

end Synopsis.Rust
