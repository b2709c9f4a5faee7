import Synopsis.Proofs.Go.Candidate
import Synopsis.Proofs.Located
import Synopsis.Proofs.Owner
import Synopsis.Proofs.Php.Attribute
import Synopsis.Proofs.Php.ParameterList
import Synopsis.Proofs.Rust.Agreement
import Synopsis.Proofs.Script.ResultLine
import Synopsis.Report.Line

/-!
# Which signatures fit their line

A signature is shown on one line if none of its parts holds a line end. Java, Python, Rust and PHP write
the parts of a declaration on one line before they read them, so all their signatures fit. TypeScript
reads type parameters and parameters as they stand, and Go does so with type arguments and with function
types without a name; these parts, and no others, carry line ends of the source into the line
(`newline_mem_line_iff`).
-/

namespace Synopsis

open Text

/-! ## Line ends in the line of a signature -/

theorem mem_join_iff {sep : String} {c : Char} (hsep : c ∉ sep.toList) {ps : List Text} :
    c ∈ join sep ps ↔ ∃ p ∈ ps, c ∈ p := by
  induction ps with
  | nil => simp [join]
  | cons p ps ih =>
    cases ps with
    | nil => simp [join_singleton]
    | cons q ps =>
      rw [join_cons_cons, List.mem_append, List.mem_append, ih]
      simp [hsep]

theorem newline_mem_present? {t : Option Text} {write : Text → Text}
    (hwrite : ∀ u, '\n' ∈ write u ↔ '\n' ∈ u) :
    '\n' ∈ ((present? t).map write).getD [] ↔ ∃ u ∈ t, '\n' ∈ u := by
  cases t with
  | none => simp [present?]
  | some u =>
    cases u with
    | nil => simp [present?, nonempty?]
    | cons c u => simp [present?, nonempty?, hwrite]

theorem Parameter.newline_mem_line {p : Parameter} :
    '\n' ∈ p.line ↔ '\n' ∈ p.name ∨ ∃ t ∈ p.type, '\n' ∈ t := by
  have hline : p.line = p.name ++ ((present? p.type).map (": ".toList ++ ·)).getD [] := by
    unfold Parameter.line
    cases present? p.type with
    | none => exact (List.append_nil _).symm
    | some type => exact List.append_assoc _ _ _
  rw [hline, List.mem_append, newline_mem_present?]
  intro u
  simp

/-- A parameter without line ends. -/
theorem Parameter.newline_not_mem_line {p : Parameter} (hname : '\n' ∉ p.name)
    (htype : ∀ t ∈ p.type, '\n' ∉ t) : '\n' ∉ p.line := by
  rw [Parameter.newline_mem_line, not_or]
  exact ⟨hname, fun ⟨t, ht, hmem⟩ => htype t ht hmem⟩

/-- What a signature shows behind its name and parameters, or in front of them, has no line end. -/
structure Signature.Framed (s : Signature) : Prop where
  returnType : ∀ r ∈ s.returnType, '\n' ∉ r
  className : ∀ o ∈ s.className, '\n' ∉ o

theorem Signature.newline_mem_line {s : Signature} (h : s.Framed) :
    '\n' ∈ s.line ↔ ∃ t ∈ s.name :: s.parameters.map Parameter.line, '\n' ∈ t := by
  have hreturn : '\n' ∉ ((present? s.returnType).map (": ".toList ++ ·)).getD [] := by
    rw [newline_mem_present? (by simp)]
    exact fun ⟨r, hr, hmem⟩ => h.returnType r hr hmem
  have howner : '\n' ∉ ((present? s.className).map (· ++ ['.'])).getD [] := by
    rw [newline_mem_present? (by simp)]
    exact fun ⟨o, ho, hmem⟩ => h.className o ho hmem
  have hlead : '\n' ∉ (if s.isAsync then "async ".toList else []) ++ "function ".toList := by
    cases s.isAsync <;> decide
  have hjoin : '\n' ∈ join ", " (s.parameters.map Parameter.line) ↔
      ∃ t ∈ s.parameters.map Parameter.line, '\n' ∈ t := mem_join_iff (by decide)
  have hopen : '\n' ≠ '(' := by decide
  have hclose : '\n' ≠ ')' := by decide
  unfold Signature.line
  rw [List.mem_append, List.mem_append, List.mem_append, List.mem_append, List.mem_cons, List.mem_cons,
    hjoin]
  simp only [hreturn, howner, hlead, hopen, hclose, or_false, false_or, List.mem_cons, exists_eq_or_imp]

theorem Signature.newline_not_mem_line {s : Signature} (h : s.Framed) (hname : '\n' ∉ s.name)
    (hparameters : ∀ p ∈ s.parameters, '\n' ∉ p.line) : '\n' ∉ s.line := by
  rw [Signature.newline_mem_line h]
  rintro ⟨t, ht, hmem⟩
  rcases List.mem_cons.1 ht with rfl | ht
  · exact hname hmem
  · obtain ⟨p, hp, rfl⟩ := List.mem_map.1 ht
    exact hparameters p hp hmem

/-! ## Texts without line ends -/

theorem newline_not_mem_of_isWordRun {t : Text} (h : IsWordRun t) : '\n' ∉ t :=
  not_mem_of_all h.2 (by decide +kernel)

theorem newline_not_mem_of_isDollarName {t : Text} (h : isDollarName t = true) : '\n' ∉ t :=
  not_mem_of_isDollarName h (by decide +kernel)

theorem newline_not_mem_of_solid {t : Text} (h : ∀ c ∈ t, isBlank c = false) : '\n' ∉ t := by
  intro hmem
  have hblank := h _ hmem
  rw [isBlank_newline] at hblank
  cases hblank

theorem newline_not_mem_of_collapsed {t : Text} (h : collapse t = t) : '\n' ∉ t :=
  h ▸ newline_not_mem_collapse t

/-! ## Java -/

namespace Java

theorem suffix_indexBrackets (t : Text) : (indexBrackets t).2 <:+ t := by
  fun_induction indexBrackets t with
  | case1 cs n rest hrest ih =>
    rw [hrest] at ih
    exact ih.trans ((List.suffix_cons _ _).trans (List.suffix_cons _ _))
  | case2 t h => exact List.suffix_refl t

/-- A parameter is read word by word. -/
theorem newline_not_mem_parameter (t : Text) : '\n' ∉ (parameter t).line := by
  have hobject : ∀ type ∈ some "Object".toList, '\n' ∉ type := by
    rintro type ⟨rfl⟩
    decide
  unfold parameter
  split
  · exact Parameter.newline_not_mem_line List.not_mem_nil hobject
  · next name hword =>
    exact Parameter.newline_not_mem_line (newline_not_mem_of_solid (solid_of_lastWord? hword)) hobject
  · next type name hword =>
    refine Parameter.newline_not_mem_line ?_ ?_
    · intro hmem
      have hname := (suffix_indexBrackets name.reverse).subset (List.mem_reverse.1 hmem)
      exact newline_not_mem_of_solid (solid_of_lastWord? hword) (List.mem_reverse.1 hname)
    · rintro type ⟨rfl⟩
      exact newline_not_mem_collapse _

theorem newline_not_mem_signatureLine {e : Entry} (hw : e.WellFormed) : '\n' ∉ e.signature.line := by
  cases hw with
  | type hname =>
    refine Signature.newline_not_mem_line ⟨fun _ h => (nomatch h), fun _ h => nomatch h⟩
      (newline_not_mem_of_isDollarName hname) fun _ h => nomatch h
  | member hreturn hname hparams howner =>
    refine Signature.newline_not_mem_line ⟨fun r hr => ?_, fun o ho => ?_⟩
      (newline_not_mem_of_isDollarName hname) fun p hp => ?_
    · exact newline_not_mem_of_collapsed (hreturn r hr).collapsed
    · obtain rfl := Option.some.inj ho
      exact newline_not_mem_of_isDollarName howner
    · obtain ⟨t, -, rfl⟩ := List.mem_map.1 hp
      exact newline_not_mem_parameter t

theorem newline_not_mem_of_signature {source f : Text} {s : Signature} (hf : f ∈ fragments source)
    (hs : signature f = .ok s) : '\n' ∉ s.line := by
  obtain ⟨e, he, rfl⟩ := mem_fragments_iff.1 hf
  have hw := wellFormed_of_mem_entries he
  by_cases hclass : OpensWithClass e.signature
  · cases (signature_of_opensWithClass hw hclass).symm.trans hs
  · obtain rfl := Except.ok.inj ((signature_fragment hw hclass).symm.trans hs)
    exact newline_not_mem_signatureLine hw

end Java

/-! ## Python -/

namespace Python

theorem newline_not_mem_parameter {t : Text} (h : '\n' ∉ t) : '\n' ∉ (parameter t).line := by
  unfold parameter
  split
  · next name type hcut =>
    obtain ⟨hname, htype⟩ := Brackets.mem_of_breakTop? hcut
    refine Parameter.newline_not_mem_line (fun hmem => h (hname _ (mem_of_mem_trim hmem))) ?_
    intro u hu hmem
    obtain ⟨-, rfl⟩ := nonempty?_eq_some.1 hu
    exact h (htype _ (mem_of_mem_trim hmem))
  · exact Parameter.newline_not_mem_line h fun _ hu => nomatch hu

theorem newline_not_mem_parameters {t : Text} (h : '\n' ∉ t) : ∀ p ∈ parameters t, '\n' ∉ p.line := by
  intro p hp
  obtain ⟨cut, hcut, rfl⟩ := List.mem_map.1 hp
  obtain ⟨piece, hpiece, rfl⟩ := List.mem_map.1 (List.mem_filter.1 hcut).1
  refine newline_not_mem_parameter fun hmem => h ?_
  exact Brackets.mem_of_mem_pieces hpiece (Brackets.mem_of_mem_cutTop hmem)

theorem newline_not_mem_of_returnText? {t r : Text} (h : returnText? t = some r) : '\n' ∉ r := by
  rcases exists_of_returnText? h with rfl | ⟨u, rfl⟩
  · exact List.not_mem_nil
  · exact not_mem_trim_takeWhile rfl u

theorem newline_not_mem_signatureLine {t : Text} {h : Header} (hh : h ∈ headers t) :
    '\n' ∉ h.signature.line := by
  obtain ⟨head, rest, hcandidate, hread⟩ := mem_headers_iff.1 hh
  obtain ⟨params, tail, -, rfl⟩ := header?_eq_some_iff.1 hread
  refine Signature.newline_not_mem_line ⟨fun r hr => ?_, fun _ ho => nomatch ho⟩
    (newline_not_mem_of_isWordRun hcandidate.isWordRun)
    (newline_not_mem_parameters (newline_not_mem_collapse params))
  obtain ⟨r', hr', hpresent⟩ := Option.bind_eq_some_iff.1 hr
  obtain ⟨-, rfl⟩ := nonempty?_eq_some.1 hpresent
  exact newline_not_mem_of_returnText? hr'

theorem newline_not_mem_of_signature {source f : Text} {s : Signature} (hf : f ∈ fragments source)
    (hs : signature f = .ok s) : '\n' ∉ s.line := by
  rcases mem_fragments_iff.1 hf with ⟨h, hh, rfl⟩ | ⟨c, -, rfl⟩
  · have hheader := signature_fragment (wellFormed_of_mem_headers hh)
    obtain rfl := Except.ok.inj (hheader.symm.trans hs)
    exact newline_not_mem_signatureLine hh
  · cases (signature_classEntry c).symm.trans hs

end Python

/-! ## Rust -/

namespace Rust

open Brackets

theorem newline_not_mem_parameter {t : Text} (h : '\n' ∉ t) : '\n' ∉ (parameter t).line := by
  unfold parameter
  split
  · exact Parameter.newline_not_mem_line (by decide) fun _ hu => nomatch hu
  · split
    next name type hparts =>
      have hcut : '\n' ∉ name ∧ ∀ u ∈ type, '\n' ∉ u := by
        split at hparts
        · next first second hbreak =>
          obtain ⟨rfl, rfl⟩ := Prod.mk.inj hparts
          refine ⟨fun hmem => h ((mem_of_breakTop? hbreak).1 _ (mem_of_mem_trim hmem)), ?_⟩
          exact fun _ hu => newline_not_mem_of_nonempty? (newline_not_mem_collapse second) hu
        · obtain ⟨rfl, rfl⟩ := Prod.mk.inj hparts
          exact ⟨h, fun _ hu => nomatch hu⟩
      split
      · next rest hmut =>
        refine Parameter.newline_not_mem_line (fun hmem => hcut.1 ?_) hcut.2
        exact (suffix_of_after? hmut).subset (mem_of_mem_trim hmem)
      · exact Parameter.newline_not_mem_line hcut.1 hcut.2

theorem newline_not_mem_parameters {t : Text} (h : '\n' ∉ t) : ∀ p ∈ parameters t, '\n' ∉ p.line := by
  intro p hp
  obtain ⟨piece, hpiece, rfl⟩ := List.mem_map.1 hp
  exact newline_not_mem_parameter fun hmem => h (Brackets.mem_of_mem_pieces hpiece hmem)

theorem newline_not_mem_qualified {owner : Option Text} {name : Text} (hname : IsWordRun name)
    (howner : ∀ o ∈ owner, IsWordRun o) : '\n' ∉ qualified owner name := by
  refine List.not_mem_append ?_ (newline_not_mem_of_isWordRun hname)
  cases owner with
  | none => exact List.not_mem_nil
  | some o => exact List.not_mem_append (newline_not_mem_of_isWordRun (howner o rfl)) (by decide)

theorem newline_not_mem_of_signature {source f : Text} {s : Signature} (hf : f ∈ fragments source)
    (hs : signature f = .ok s) : '\n' ∉ s.line := by
  obtain ⟨i, hi, rfl⟩ := mem_fragments_iff.1 hf
  obtain ⟨owner, head, rest, hcandidate, hread⟩ := mem_items_iff.1 hi
  obtain ⟨params, tail, hgroup, rfl⟩ := item?_eq_some_iff.1 hread
  obtain ⟨hname, howner⟩ := hcandidate.isWordRun
  rw [signature_item hname howner hgroup] at hs
  obtain rfl := Except.ok.inj hs
  refine Signature.newline_not_mem_line ⟨fun r hr => ?_, fun _ ho => nomatch ho⟩ ?_
    (newline_not_mem_parameters (newline_not_mem_collapse params))
  · exact newline_not_mem_of_collapsed (isReturnType_of_returnType hr).collapsed
  · exact List.not_mem_append (newline_not_mem_qualified hname howner) (newline_not_mem_collapse _)

end Rust

/-! ## PHP -/

namespace Php

theorem newline_not_mem_parameterType {t u : Text} (h : '\n' ∉ t) (hu : parameterType t = some u) :
    '\n' ∉ u := by
  have htype : ∀ v ∈ nonempty? (trim (replaceAll promotionAt? [] (withoutDots (without '&' t)))),
      '\n' ∉ v := by
    refine fun v hv => newline_not_mem_of_nonempty? (fun hmem => h ?_) hv
    have hkept := (mem_of_mem_replaceFrom (mem_of_mem_trim hmem)).resolve_left List.not_mem_nil
    exact (List.mem_filter.1 ((withoutDots_sublist _).subset hkept)).1
  unfold parameterType at hu
  dsimp only at hu
  split at hu
  · obtain rfl := Option.some.inj hu
    refine List.not_mem_append (by decide) ?_
    cases hv : nonempty? (trim (replaceAll promotionAt? [] (withoutDots (without '&' t)))) with
    | none => exact List.not_mem_nil
    | some v => exact htype v hv
  · exact htype u hu

theorem newline_not_mem_parameter {t : Text} (h : '\n' ∉ t) : '\n' ∉ (parameter t).line := by
  unfold parameter
  split
  · next s hs =>
    obtain ⟨p, hread⟩ := exists_read_of_firstSite? hs
    obtain ⟨v, -, hname⟩ := Option.bind_eq_some_iff.1 hread
    refine Parameter.newline_not_mem_line (newline_not_mem_of_isWordRun ?_) fun u hu => ?_
    · exact isWordRun_of_isName (isName_of_name? hname)
    · exact newline_not_mem_parameterType (fun hmem => h (List.mem_of_mem_take hmem)) hu
  · exact Parameter.newline_not_mem_line h fun _ hu => nomatch hu

theorem newline_not_mem_parameters {t : Text} (h : '\n' ∉ t) : ∀ p ∈ parameters t, '\n' ∉ p.line := by
  intro p hp
  obtain ⟨piece, hpiece, rfl⟩ := List.mem_map.1 hp
  refine newline_not_mem_parameter fun hmem => h ?_
  have hstripped := Brackets.mem_of_mem_pieces hpiece (Brackets.mem_of_mem_cutTop hmem)
  exact (sublist_stripAttributes t).subset hstripped

theorem newline_not_mem_of_returnText? {t r : Text} (h : returnText? t = some r) : '\n' ∉ r := by
  obtain ⟨-, u, -, rfl⟩ := returnText?_eq_some_iff.1 h
  exact not_mem_trim_takeWhile rfl _

theorem newline_not_mem_signatureLine {source : Text} {e : Entry}
    (he : e ∈ entries (CommentStyle.slashesAndHash.strip source)) : '\n' ∉ e.signature.line := by
  have hw := wellFormed_of_mem_entries (CommentStyle.blockFree_strip source) he
  have hname {n : Text} (hn : isName n = true) : '\n' ∉ n :=
    newline_not_mem_of_isWordRun (isWordRun_of_isName hn)
  rcases mem_entries_iff.1 he with ⟨b, -, rfl⟩ | ⟨owner, name, rest, -, hread⟩
  · cases hw with
    | type _ _ hn =>
      exact Signature.newline_not_mem_line ⟨fun _ h => (nomatch h), fun _ h => nomatch h⟩ (hname hn)
        fun _ h => nomatch h
  · obtain ⟨params, tail, -, rfl⟩ := function?_eq_some_iff.1 hread
    cases hw with
    | function hn _ _ howner _ =>
      exact Signature.newline_not_mem_line
        ⟨fun _ hr => newline_not_mem_of_returnText? hr, fun o ho => hname (howner o ho)⟩ (hname hn)
        (newline_not_mem_parameters (newline_not_mem_collapse params))

theorem newline_not_mem_of_signature {source f : Text} {s : Signature} (hf : f ∈ fragments source)
    (hs : signature f = .ok s) : '\n' ∉ s.line := by
  obtain ⟨e, he, rfl⟩ := mem_fragments_iff.1 hf
  have hw := wellFormed_of_mem_entries (CommentStyle.blockFree_strip source) he
  obtain rfl := Except.ok.inj ((signature_fragment hw).symm.trans hs)
  exact newline_not_mem_signatureLine he

end Php

/-! ## Go -/

namespace Go

/-- What a function type without a name is called. -/
def anonymous : Text := "(anonymous)".toList

/-- Only a function type without a name is not read word by word. -/
theorem name_of_newline_mem_line {waiting pieces : List Text} (hwaiting : ∀ w ∈ waiting, '\n' ∉ w)
    {p : Parameter} (hp : p ∈ resolve waiting pieces) (hline : '\n' ∈ p.line) : p.name = anonymous := by
  fun_induction resolve waiting pieces with
  | case1 waiting =>
    obtain ⟨n, hn, rfl⟩ := List.mem_map.1 hp
    exact absurd hline (Parameter.newline_not_mem_line (hwaiting n hn) fun _ h => nomatch h)
  | case2 waiting piece ps hfunc ih =>
    rcases List.mem_cons.1 hp with rfl | hp
    · rfl
    · exact ih hwaiting hp
  | case3 waiting piece ps hfunc name type hword ih =>
    rcases List.mem_append.1 hp with hp | hp
    · obtain ⟨n, hn, rfl⟩ := List.mem_map.1 hp
      refine absurd hline (Parameter.newline_not_mem_line ?_ ?_)
      · rcases List.mem_append.1 hn with hn | hn
        · exact hwaiting n hn
        · rw [List.mem_singleton.1 hn]
          exact newline_not_mem_of_solid (solid_of_firstWord? hword)
      · rintro u ⟨rfl⟩
        exact newline_not_mem_collapse type
    · exact ih (List.forall_mem_nil _) hp
  | case4 waiting piece ps hfunc name hword ih =>
    refine ih (fun w hw => ?_) hp
    rcases List.mem_append.1 hw with hw | hw
    · exact hwaiting w hw
    · rw [List.mem_singleton.1 hw]
      exact newline_not_mem_of_solid (solid_of_firstWord? hword)
  | case5 waiting piece ps hfunc hword ih => exact ih hwaiting hp

theorem newline_not_mem_results {t r : Text} (h : results t = some r) : '\n' ∉ r := by
  have hresult {t r : Text} (h : resultType t = some r) : '\n' ∉ r :=
    newline_not_mem_of_nonempty? (newline_not_mem_collapse t) h
  unfold results at h
  dsimp only at h
  generalize trim (if t.getLast? = some '{' then t.dropLast else before '\n' t) = u at h
  split at h
  · obtain ⟨u, hu, rfl⟩ := Option.map_eq_some_iff.1 h
    have hinside := hresult hu
    simp [hinside]
  · exact hresult h

theorem newline_not_mem_receiverType {t o : Text} (h : receiverType t = some o) : '\n' ∉ o :=
  newline_not_mem_of_solid fun c hc => ((bare_receiverType h).1.2 c hc).2

theorem lines_of_signature {f : Text} {s : Signature} (h : signature f = .ok s) :
    s.Framed ∧ '\n' ∉ before '[' s.name ∧
      ∀ p ∈ s.parameters, '\n' ∈ p.line → p.name = anonymous := by
  obtain ⟨t, name, u, params, rest, -, hu, -, rfl⟩ := exists_of_signature h
  have hname := isWordRun_of_isName (isName_of_name? hu)
  have hopen : '[' ∉ name := not_mem_of_all hname.2 (by decide +kernel)
  refine ⟨⟨fun r hr => newline_not_mem_results hr, fun o ho => ?_⟩, ?_, fun p hp => ?_⟩
  · obtain ⟨r, -, hr⟩ := Option.bind_eq_some_iff.1 ho
    exact newline_not_mem_receiverType hr
  · dsimp only
    split
    · rw [List.append_assoc, List.cons_append, before_append hopen]
      exact newline_not_mem_of_isWordRun hname
    · rw [before_eq_self hopen]
      exact newline_not_mem_of_isWordRun hname
  · exact name_of_newline_mem_line (List.forall_mem_nil _) hp

theorem newline_mem_parameters {ps : List Parameter} (h : ∀ p ∈ ps, '\n' ∈ p.line → p.name = anonymous) :
    (∃ t ∈ ps.map Parameter.line, '\n' ∈ t) ↔
      ∃ t ∈ (ps.filter (·.name == anonymous)).map Parameter.line, '\n' ∈ t := by
  constructor
  · rintro ⟨t, ht, hmem⟩
    obtain ⟨p, hp, rfl⟩ := List.mem_map.1 ht
    have hname : (p.name == anonymous) = true := beq_iff_eq.2 (h p hp hmem)
    exact ⟨p.line, List.mem_map_of_mem (List.mem_filter.2 ⟨hp, hname⟩), hmem⟩
  · rintro ⟨t, ht, hmem⟩
    obtain ⟨p, hp, rfl⟩ := List.mem_map.1 ht
    exact ⟨p.line, List.mem_map_of_mem (List.mem_filter.1 hp).1, hmem⟩

end Go

/-! ## TypeScript and JavaScript -/

namespace Script

theorem newline_not_mem_of_isCallableChar {t : Text} (h : t.all isCallableChar = true) : '\n' ∉ t :=
  not_mem_of_all h (by decide +kernel)

theorem newline_not_mem_of_headerName? {t name rest : Text} (h : headerName? t = some (name, rest)) :
    '\n' ∉ before '<' name := by
  unfold headerName? at h
  obtain ⟨⟨word, u⟩, hword, h⟩ := Option.bind_eq_some_iff.1 h
  obtain ⟨v, -, h⟩ := Option.bind_eq_some_iff.1 h
  obtain ⟨rfl, -⟩ := Prod.mk.inj (Option.some.inj h)
  obtain ⟨-, -, hall, -⟩ := eq_append_of_run? hword
  have hopen : '<' ∉ word := not_mem_of_all hall (by decide +kernel)
  have hname (own : Text) :
      '\n' ∉ before '<' (if own.isEmpty then word else word ++ '<' :: own ++ ['>']) := by
    split
    · rw [before_eq_self hopen]
      exact newline_not_mem_of_isCallableChar hall
    · rw [List.append_assoc, List.cons_append, before_append hopen]
      exact newline_not_mem_of_isCallableChar hall
  exact hname _

theorem exists_next_of_optionally {α : Type} {words : List String} {next : Bool → Text → Option α}
    {t : Text} {a : α} (h : optionally words next t = some a) : ∃ isThere u, next isThere u = some a := by
  unfold optionally at h
  rcases Option.or_eq_some_iff.1 h with h | ⟨-, h⟩
  · obtain ⟨u, -, h⟩ := Option.bind_eq_some_iff.1 h
    exact ⟨true, u, h⟩
  · exact ⟨false, t, h⟩

theorem newline_not_mem_of_header? {t rest : Text} {header : Header}
    (h : header? t = some (header, rest)) : '\n' ∉ before '<' header.name := by
  unfold header? at h
  obtain ⟨_, t, h⟩ := exists_next_of_optionally h
  obtain ⟨_, t, h⟩ := exists_next_of_optionally h
  obtain ⟨_, t, h⟩ := exists_next_of_optionally h
  obtain ⟨_, t, h⟩ := exists_next_of_optionally h
  obtain ⟨⟨name, u⟩, hname, he⟩ := Option.map_eq_some_iff.1 h
  obtain ⟨rfl, -⟩ := Prod.mk.inj he
  exact newline_not_mem_of_headerName? hname

theorem newline_not_mem_of_arrowHead? {t name rest : Text} {isAsync : Bool}
    (h : arrowHead? t = some ((name, isAsync), rest)) : '\n' ∉ name := by
  unfold arrowHead? at h
  obtain ⟨u, -, h⟩ := Option.bind_eq_some_iff.1 h
  obtain ⟨⟨word, v⟩, hword, h⟩ := Option.bind_eq_some_iff.1 h
  obtain ⟨w, -, h⟩ := Option.bind_eq_some_iff.1 h
  obtain ⟨x, -, h⟩ := Option.bind_eq_some_iff.1 h
  obtain ⟨⟨rfl, -⟩, -⟩ := And.imp_left Prod.mk.inj (Prod.mk.inj (Option.some.inj h))
  obtain ⟨-, -, hall, -⟩ := eq_append_of_run? hword
  exact not_mem_of_all hall (by decide +kernel)

theorem newline_not_mem_before_name {f : Text} {s : Signature} (h : signature f = .ok s) :
    '\n' ∉ before '<' s.name := by
  rcases cases_of_signature h with
    ⟨name, isAsync, t, returnType, ht, -, rfl⟩ | ⟨header, t, params, rest, -, ht, -, rfl⟩
  · exact fun hmem => newline_not_mem_of_arrowHead? ht ((List.takeWhile_prefix _).subset hmem)
  · exact newline_not_mem_of_header? ht

theorem framed_of_signature {source f : Text} {s : Signature} (hf : f ∈ fragments source)
    (hs : signature f = .ok s) : s.Framed where
  returnType _ hr := newline_not_mem_returnType hf hs hr
  className o ho := by
    have howner : (splitOwner f).2 = some o := (read_of_signature hs).1.symm.trans ho
    exact newline_not_mem_of_solid fun c hc => ((bare_owner howner).2 c hc).2

end Script

/-! ## Every language -/

/-- What a signature keeps as it stands in the source: in TypeScript the type parameters and the
    parameters, in Go the type arguments and the function types without a name. -/
def Language.verbatim : Language → Signature → List Text
  | .typescript, s => s.name.dropWhile (· ≠ '<') :: s.parameters.map Parameter.line
  | .go, s => s.name.dropWhile (· ≠ '[') ::
      (s.parameters.filter (·.name == Go.anonymous)).map Parameter.line
  | .java, _ | .python, _ | .rust, _ | .php, _ => []

theorem newline_mem_behind {c : Char} {t : Text} (h : '\n' ∉ before c t) :
    '\n' ∈ t ↔ '\n' ∈ t.dropWhile (· ≠ c) := by
  have hcut : t = before c t ++ t.dropWhile (· ≠ c) := List.takeWhile_append_dropWhile.symm
  conv => lhs; rw [hcut, List.mem_append]
  exact or_iff_right h

/-- The line of a signature ends where one of its parts does that is kept as it stands in the source, and
    nowhere else. -/
theorem newline_mem_line_iff {l : Language} {source : Text} {s : Signature}
    (hs : s ∈ l.extract source) : '\n' ∈ s.line ↔ ∃ t ∈ l.verbatim s, '\n' ∈ t := by
  obtain ⟨-, f, hf, hread⟩ := Language.mem_extract.1 hs
  have hnever (h : '\n' ∉ s.line) : '\n' ∈ s.line ↔ ∃ t ∈ ([] : List Text), '\n' ∈ t := by
    simp [h]
  cases l with
  | typescript =>
    rw [Signature.newline_mem_line (Script.framed_of_signature hf hread)]
    simp only [Language.verbatim, List.mem_cons, exists_eq_or_imp,
      newline_mem_behind (Script.newline_not_mem_before_name hread)]
  | go =>
    obtain ⟨hframed, hname, hparameters⟩ := Go.lines_of_signature hread
    simp only [Signature.newline_mem_line hframed, Language.verbatim, List.mem_cons,
      exists_eq_or_imp, newline_mem_behind hname, Go.newline_mem_parameters hparameters]
  | java => exact hnever (Java.newline_not_mem_of_signature hf hread)
  | python => exact hnever (Python.newline_not_mem_of_signature hf hread)
  | rust => exact hnever (Rust.newline_not_mem_of_signature hf hread)
  | php => exact hnever (Php.newline_not_mem_of_signature hf hread)

/-- A method with one parameter to a line. -/
def wrappedMethod : Text := "class C \x7b\n  int f(\n    int a,\n    int b) \x7b \x7d\n\x7d\n".toList

/-- A function with one type parameter and one parameter to a line. -/
def wrappedFunction : Text := "function f<\n  T,\n>(\n  a: T,\n  b: U,\n): T \x7b\n\x7d\n".toList

/-- The parameters that are written one to a line fit the line of the signature, the type parameters do
    not. -/
theorem newline_mem_line_iff_wrapped :
    ((Language.java.extract wrappedMethod).map (·.line) =
        ["function C()".toList, "function C.f(a: int, b: int): int".toList] ∧
      ∀ s ∈ Language.java.extract wrappedMethod, '\n' ∉ s.line) ∧
    (Language.typescript.extract wrappedFunction).map (·.line) =
        ["function f<\n  T,\n>(a: T, b: U): T".toList] ∧
      ∀ s ∈ Language.typescript.extract wrappedFunction, '\n' ∈ s.line := by
  refine ⟨⟨by decide +kernel, fun s hs => ?_⟩, by decide +kernel, fun s hs => ?_⟩
  · rw [newline_mem_line_iff hs]
    exact fun ⟨t, ht, _⟩ => nomatch ht
  · rw [newline_mem_line_iff hs]
    revert s
    decide +kernel

/-- A parameter with an object type of several lines. -/
def wrappedObject : Text := "function f(a: \x7b\n  x: string\n\x7d) \x7b\n\x7d\n".toList

/-- A parameter with a function type of several lines and no name. -/
def wrappedCallback : Text := "func F(func(\n\tint,\n) error) \x7b\n\x7d\n".toList

/-- Neither signature fits its line. -/
theorem newline_mem_line_wrappedTypes :
    (∃ s ∈ Language.typescript.extract wrappedObject,
        s.line = "function f(a: \x7b\n  x: string\n\x7d)".toList ∧ '\n' ∈ s.line) ∧
      ∃ s ∈ Language.go.extract wrappedCallback,
        s.line = "function F((anonymous): func(\n\tint,\n) error)".toList ∧ '\n' ∈ s.line := by
  have hobject : { name := "f".toList, parameters :=
      [{ name := "a".toList, type := some "\x7b\n  x: string\n\x7d".toList }] } ∈
        Language.typescript.extract wrappedObject := by decide +kernel
  have hcallback : { name := "F".toList, parameters :=
      [{ name := Go.anonymous, type := some "func(\n\tint,\n) error".toList }] } ∈
        Language.go.extract wrappedCallback := by decide +kernel
  exact ⟨⟨_, hobject, by decide, by decide⟩, _, hcallback, by decide, by decide⟩

end Synopsis
