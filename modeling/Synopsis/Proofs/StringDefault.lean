import Synopsis.Language
import Synopsis.Proofs.Nesting.Piece
import Synopsis.Proofs.Nesting.TypeText
import Synopsis.Proofs.Php.Attribute
import Synopsis.Proofs.Scan.Site

/-!
# Literals as default values

Splitting a parameter list and stripping its defaults know brackets and no quotes: what stands in a
literal counts as it would anywhere else. So a list of two parameters, the first with a literal as its
default, is split where it should be exactly when the literal is contained, that is, when every comma in it
stands inside brackets that the literal itself opens, and it leaves none open (`pieces_quoted_iff`). The
parameters are then the two names, in Python, PHP and TypeScript alike (`parameters_quoted`). Two things are
particular to a language. In PHP attributes are removed first, from the literal too. In TypeScript a
parameter in which an arrow occurs keeps its default, and an arrow in a literal is one.
-/

namespace Synopsis

open Text Brackets

/-! ## Lists with a literal -/

/-- A parameter with a literal as its default value, and the name of the parameter after it. -/
structure Quoted where
  name : Text
  quote : Char
  body : Text
  next : Text
deriving DecidableEq, Repr

/-- A text without blanks, brackets and the signs that stand between the parts of a parameter. Every name of
    a variable is one, in every language. -/
structure IsPlainName (n : Text) : Prop where
  ne_nil : n ≠ []
  chars : ∀ c ∈ n, isBlank c = false ∧ isTypeBracket c = false ∧ c ∉ [',', ':', '=', '*', '/']

namespace Quoted

/-- What stands before the body of the literal. -/
def front (d : Quoted) : Text := d.name ++ " = ".toList ++ [d.quote]

/-- The first parameter as it is written. -/
def first (d : Quoted) : Text := d.front ++ (d.body ++ [d.quote])

/-- The list as it is written. -/
def list (d : Quoted) : Text := d.first ++ ", ".toList ++ d.next

/-- A list whose parts can be told apart. -/
structure WellFormed (d : Quoted) : Prop where
  name : IsPlainName d.name
  next : IsPlainName d.next
  quote : d.quote = '\'' ∨ d.quote = '"'
  quote_not_mem : d.quote ∉ d.body

end Quoted

/-- A text that a splitter takes as it stands: all its commas are inside its own brackets, and none of these
    is left open. -/
structure Contained (b : Brackets) (t : Text) : Prop where
  solid : b.stretchesFrom [] none t = [t]
  closed : b.openAfter [] none t = []

theorem contained_iff {b : Brackets} (hb : b.Usual) {t : Text} : Contained b t ↔
    (b.stretchesFrom [] none t).length = 1 ∧ b.openAfter [] none t = [] :=
  ⟨fun h => ⟨by rw [h.solid]; rfl, h.closed⟩, fun h => ⟨solid_of_length hb h.1, h.2⟩⟩

/-! ## Splitting -/

section Splitting

variable {b : Brackets} {d : Quoted} {n : Text}

namespace IsPlainName

theorem solid (h : IsPlainName n) : ∀ c ∈ n, isBlank c = false := fun c hc => (h.chars c hc).1

theorem not_mem (h : IsPlainName n) {c : Char} (hc : c ∈ [',', ':', '=', '*', '/']) : c ∉ n :=
  fun hmem => (h.chars c hmem).2.2 hc

theorem all (h : IsPlainName n) (hb : b.Usual) {x : Char} (hx : x ∈ [',', ':', '=', '*', '/']) :
    n.all (fun c => c != x && !b.opens c && !b.closes c) = true :=
  all_of_chars hb fun c hc => ⟨(h.chars c hc).2.1, fun he => h.not_mem hx (he ▸ hc)⟩

theorem pieces (h : IsPlainName n) (hb : b.Usual) : b.pieces n = [n] := by
  have hlength := length_stretchesFrom_plain (h.all hb (x := ',') (by decide)) [] none []
  rw [List.append_nil, stretchesFrom_nil] at hlength
  have hblank : blank n ≠ true := fun hblank =>
    h.ne_nil (trim_of_solid h.solid ▸ trim_eq_nil_iff.2 hblank)
  rw [pieces_of_solid (solid_of_length hb hlength), if_neg hblank, trim_of_solid h.solid]

end IsPlainName

theorem front_chars (hd : d.WellFormed) {c : Char} (hc : c ∈ d.front) :
    isTypeBracket c = false ∧ c ≠ ',' ∧ c ≠ ':' := by
  have hcases : c ∈ d.name ∨ c = ' ' ∨ c = '=' ∨ c = ' ' ∨ c = d.quote := by
    simpa [Quoted.front, or_assoc] using hc
  rcases hcases with hname | rfl | rfl | rfl | rfl
  · have hne := (hd.name.chars c hname).2.2
    exact ⟨(hd.name.chars c hname).2.1, fun he => hne (by simp [he]), fun he => hne (by simp [he])⟩
  · decide
  · decide
  · decide
  · rcases hd.quote with hq | hq <;> rw [hq] <;> decide

theorem contained_first_iff (hb : b.Usual) (hd : d.WellFormed) :
    Contained b d.first ↔ Contained b d.body := by
  have hfront := all_of_chars hb fun c hc => ⟨(front_chars hd hc).1, (front_chars hd hc).2.1⟩
  have hquote : isTypeBracket d.quote = false ∧ ',' ∉ [d.quote] ∧ Calm (some d.quote) := by
    rcases hd.quote with hq | hq <;> rw [hq] <;> exact ⟨by decide, by decide, by decide, by decide⟩
  have hlast : d.front.getLast?.or none = some d.quote := by simp [Quoted.front]
  have hlength : (b.stretchesFrom [] none d.first).length = (b.stretchesFrom [] none d.body).length := by
    rw [Quoted.first, length_stretchesFrom_plain hfront, length_stretchesFrom_append hquote.2.1, hlast,
      stretchesFrom_of_calm hquote.2.2]
  have hopen : b.openAfter [] none d.first = b.openAfter [] none d.body := by
    obtain ⟨ho, hc⟩ := not_bracket_of_usual hb hquote.1
    have hplain : b.openAfter [] none d.front = [] := openAfter_plain (by
      refine List.all_eq_true.2 fun c hc => ?_
      obtain ⟨ho, hcl⟩ := not_bracket_of_usual hb (front_chars hd hc).1
      rw [ho, hcl]
      rfl) [] none
    rw [Quoted.first, openAfter_append, hplain, hlast, openAfter_append, openAfter_of_calm hquote.2.2,
      openAfter, step_of_other ho hc]
    rfl
  rw [contained_iff hb, contained_iff hb, hlength, hopen]

theorem exists_name (hd : d.WellFormed) : ∃ c n, d.name = c :: n ∧ isBlank c = false ∧ c ≠ ',' := by
  obtain ⟨c, n, hname⟩ := List.exists_cons_of_ne_nil hd.name.ne_nil
  have hc := hd.name.chars c (by simp [hname])
  exact ⟨c, n, hname, hc.1, fun he => hc.2.2 (by simp [he])⟩

theorem trim_first (hd : d.WellFormed) : trim d.first = d.first := by
  obtain ⟨c, n, hname, hc, -⟩ := exists_name hd
  have hquote : isBlank d.quote = false := by rcases hd.quote with hq | hq <;> rw [hq] <;> decide
  refine trim_eq_self_iff.2 ⟨?_, ?_⟩
  · simp [Quoted.first, Quoted.front, hname, hc]
  · rw [Quoted.first, ← List.append_assoc, List.getLast?_concat, Option.any_some, hquote]

theorem list_eq (d : Quoted) : d.list = d.first ++ ',' :: ' ' :: d.next := by
  rw [Quoted.list, List.append_assoc]
  rfl

theorem pieces_of_contained (hb : b.Usual) (hd : d.WellFormed) (h : Contained b d.first) :
    b.pieces d.list = [d.first, d.next] := by
  obtain ⟨c, n, hname, hc, -⟩ := exists_name hd
  have hblank : blank d.first ≠ true := by
    rw [Quoted.first, Quoted.front, hname, List.append_assoc, List.append_assoc, List.cons_append,
      blank_cons, hc]
    simp
  rw [list_eq, pieces_append_comma hb h.solid h.closed, pieces_of_solid h.solid, if_neg hblank,
    trim_first hd, pieces_cons_of_blank hb isBlank_space, hd.next.pieces hb]
  rfl

theorem contained_of_pieces (hb : b.Usual) (hd : d.WellFormed)
    (h : b.pieces d.list = [d.first, d.next]) : Contained b d.first := by
  rw [list_eq] at h
  rcases pieces_cases hb (d.first ++ ',' :: ' ' :: d.next) with hone | ⟨s, r, hs, hclosed, hsolid, hcut⟩
  · rw [pieces_of_solid hone] at h
    split at h <;> simp at h
  · -- The first stretch begins with the name, so it is the first parameter and no blanks follow it.
    obtain ⟨c, u, rfl, hc⟩ : ∃ c u, s = c :: u ∧ isBlank c = false := by
      obtain ⟨c, n, hname, hc, hcomma⟩ := exists_name hd
      rw [Quoted.first, Quoted.front, hname] at hs
      cases s with
      | nil => exact absurd (List.cons.inj hs).1 hcomma
      | cons x u => exact ⟨x, u, rfl, (List.cons.inj hs).1 ▸ hc⟩
    have hblank : blank (c :: u) ≠ true := by rw [blank_cons, hc]; simp
    have htrim : trim (c :: u) = trimEnd (c :: u) := by rw [trim, trimStart_cons_of_not hc]
    rw [hcut, pieces_of_solid hsolid, if_neg hblank, List.singleton_append, htrim] at h
    obtain ⟨g, hg, hu, -⟩ := exists_trimEnd (c :: u)
    rw [(List.cons.inj h).1] at hu
    rw [hu, List.append_assoc, List.append_cancel_left_eq] at hs
    cases g with
    | nil =>
      rw [List.append_nil] at hu
      exact ⟨hu ▸ hsolid, hu ▸ hclosed⟩
    | cons x g =>
      obtain rfl : ',' = x := (List.cons.inj hs).1
      rw [blank_cons] at hg
      cases hg

/-- A list with a literal is split between its two parameters exactly when the literal is contained. -/
theorem pieces_quoted_iff (hb : b.Usual) (hd : d.WellFormed) :
    b.pieces d.list = [d.first, d.next] ↔ Contained b d.body := by
  rw [← contained_first_iff hb hd]
  exact ⟨contained_of_pieces hb hd, pieces_of_contained hb hd⟩

end Splitting

/-! ## Stripping -/

section Stripping

variable {b : Brackets} {d : Quoted} {n : Text}

theorem cutTop_name (hb : b.Usual) (h : IsPlainName n) : b.cutTop '=' n = n := by
  rw [cutTop, (TopFree.of_all (h.all hb (by decide))).breakTop?_eq_none]

theorem breakTop?_colon_name (hb : b.Usual) (h : IsPlainName n) : b.breakTop? ':' n = none :=
  (TopFree.of_all (h.all hb (by decide))).breakTop?_eq_none

theorem cutTop_first (hb : b.Usual) (hd : d.WellFormed) : b.cutTop '=' d.first = d.name := by
  have hfree : b.TopFree '=' (d.name ++ [' ']) := by
    obtain ⟨ho, hc⟩ := not_bracket_of_usual hb (show isTypeBracket ' ' = false by decide)
    exact (TopFree.of_all (hd.name.all hb (by decide))).append (TopFree.of_all (by simp [ho, hc]))
  have hfirst : d.first = (d.name ++ [' ']) ++ '=' :: (' ' :: d.quote :: (d.body ++ [d.quote])) := by
    simp [Quoted.first, Quoted.front]
  rw [hfirst, cutTop, hfree.breakTop?_append]
  exact (trim_concat_of_blank isBlank_space d.name).trans (trim_of_solid hd.name.solid)

namespace Python

theorem parameter_name (h : IsPlainName n) : parameter n = { name := n } := by
  rw [parameter, breakTop?_colon_name usual_noAngle h]

theorem parameters_of_pieces (hd : d.WellFormed) (h : noAngle.pieces d.list = [d.first, d.next]) :
    parameters d.list = [{ name := d.name }, { name := d.next }] := by
  have hplain : ∀ n ∈ [d.name, d.next], IsPlainName n := by
    simpa using And.intro hd.name hd.next
  have hkept : [d.name, d.next].filter (fun p => p ≠ ['*'] && p ≠ ['/']) = [d.name, d.next] := by
    refine List.filter_eq_self.2 fun n hn => ?_
    have hstar : n ≠ ['*'] := fun he => (hplain n hn).not_mem (c := '*') (by decide) (by simp [he])
    have hslash : n ≠ ['/'] := fun he => (hplain n hn).not_mem (c := '/') (by decide) (by simp [he])
    simp [hstar, hslash]
  rw [parameters, h, List.map_cons, List.map_singleton, cutTop_first usual_noAngle hd,
    cutTop_name usual_noAngle hd.next, hkept, List.map_cons, List.map_singleton, parameter_name hd.name,
    parameter_name hd.next]

end Python

namespace Script

theorem parameter?_name (h : IsPlainName n) : parameter? n = some { name := n } := by
  have hcut : (if holds "=>".toList n then n else all.cutTop '=' n) = n := by
    rw [cutTop_name usual_all h, ite_self]
  unfold parameter?
  simp only [hcut, breakTop?_colon_name usual_all h]
  rw [skipKeywords_of_solid h.solid, nonempty?_of_ne_nil h.ne_nil]
  rfl

theorem arrow_first_iff (hd : d.WellFormed) : fatArrow <:+: d.first ↔ fatArrow <:+: d.body := by
  have hquote : d.quote ≠ '=' ∧ d.quote ≠ '>' := by rcases hd.quote with hq | hq <;> rw [hq] <;> decide
  have hfront : ¬ ['=', '>'] <:+: d.front := fun hpair =>
    absurd (front_chars hd (hpair.subset (show '>' ∈ ['=', '>'] by decide))).1 (by decide)
  have hone : ¬ ['=', '>'] <:+: [d.quote] := fun hpair => absurd hpair.length_le (by simp)
  have hlast : d.front.getLast? = some d.quote := by simp [Quoted.front]
  show ['=', '>'] <:+: d.front ++ (d.body ++ [d.quote]) ↔ ['=', '>'] <:+: d.body
  rw [pair_infix_append_iff, pair_infix_append_iff, hlast, List.head?_cons]
  simp [hfront, hone, hquote]

theorem parameter?_first (hd : d.WellFormed) (h : ¬ fatArrow <:+: d.body) :
    parameter? d.first = some { name := d.name } := by
  have hholds : holds "=>".toList d.first = false :=
    holds_eq_false_iff.2 fun hpair => h ((arrow_first_iff hd).1 hpair)
  unfold parameter?
  simp only [hholds, Bool.false_eq_true, if_false, cutTop_first usual_all hd,
    breakTop?_colon_name usual_all hd.name]
  rw [skipKeywords_of_solid hd.name.solid, nonempty?_of_ne_nil hd.name.ne_nil]
  rfl

/-- With an arrow in the literal, the default stays in the name. -/
theorem parameter?_first_of_arrow (hd : d.WellFormed) (h : fatArrow <:+: d.body) :
    ∃ p, parameter? d.first = some p ∧ '=' ∈ p.name := by
  have hholds : holds "=>".toList d.first = true := by
    rw [← Bool.not_eq_false]
    exact mt holds_eq_false_iff.1 (not_not_intro ((arrow_first_iff hd).2 h))
  have hequals : '=' ∈ d.front := by simp [Quoted.front]
  have hname {t : Text} (ht : '=' ∈ t) : '=' ∈ skipKeywords parameterModifiers t :=
    mem_skipKeywords (by decide) (by decide) ht
  have hpresent {t : Text} (ht : '=' ∈ t) :
      nonempty? (skipKeywords parameterModifiers t) = some (skipKeywords parameterModifiers t) :=
    nonempty?_of_ne_nil fun he => by simpa [he] using hname ht
  have hfree : all.TopFree ':' d.front :=
    TopFree.of_all (all_of_chars usual_all fun c hc => ⟨(front_chars hd hc).1, (front_chars hd hc).2.2⟩)
  obtain ⟨prev, hbreak⟩ := hfree none (d.body ++ [d.quote])
  unfold parameter?
  simp only [hholds, if_true]
  rw [breakTop?, Quoted.first, hbreak]
  cases hrest : all.breakTopFrom (· == ':') 0 prev (d.body ++ [d.quote]) with
  | none =>
    have hmem : '=' ∈ d.front ++ (d.body ++ [d.quote]) := List.mem_append_left _ hequals
    simp only [Option.map_none, hpresent hmem]
    exact ⟨_, rfl, hname hmem⟩
  | some cut =>
    have hmem : '=' ∈ trim (d.front ++ cut.1) :=
      mem_trim_of_mem (by decide) (List.mem_append_left _ hequals)
    simp only [Option.map_some, hpresent hmem]
    exact ⟨_, rfl, hname hmem⟩

theorem parameters_of_pieces {p : Parameter} (hd : d.WellFormed) (hp : parameter? d.first = some p)
    (h : all.pieces d.list = [d.first, d.next]) : parameters d.list = [p, { name := d.next }] := by
  rw [parameters, h, List.filterMap_cons_some hp, List.filterMap_cons_some (parameter?_name hd.next),
    List.filterMap_nil]

end Script

/-! ### Variables of PHP -/

namespace Php

/-- The text before a variable gives it its type. -/
theorem parameter_append {head : Text} (hhead : '$' ∉ head) (h : isName n = true) :
    parameter (head ++ '$' :: n) = { name := n, type := parameterType head } := by
  have hname : name? n = some (n, []) := by
    have hread := name?_append h (t := []) rfl
    rwa [List.append_nil] at hread
  have hread : variableAt? (.between head ('$' :: n)) = some (n, []) := hname
  have hnone : ∀ a₁ a₂, a₂ ≠ [] → head = a₁ ++ a₂ →
      variableAt? (.between a₁ (a₂ ++ '$' :: n)) = none := by
    rintro a₁ a₂ hne rfl
    obtain ⟨c, u, rfl⟩ := List.exists_cons_of_ne_nil hne
    have hc : (c :: u ++ '$' :: n).head? ≠ some '$' := fun he =>
      hhead (by rw [Option.some.inj he]; simp)
    rw [variableAt?, char?, Place.between, after?_eq_none_of_head (c := '$') rfl hc]
    rfl
  rw [parameter, firstSite?_append (List.cons_ne_nil _ _) hnone hread]
  simp only [List.take_left]

theorem parameter_variable (h : isName n = true) : parameter ('$' :: n) = { name := n } :=
  parameter_append (List.not_mem_nil (a := '$')) h

theorem parameters_of_pieces {m t : Text} (hd : d.WellFormed) (hn : isName n = true)
    (hm : isName m = true) (hname : d.name = '$' :: n) (hnext : d.next = '$' :: m)
    (h : noAngle.pieces (stripAttributes t) = [d.first, d.next]) :
    parameters t = [{ name := n }, { name := m }] := by
  rw [parameters, h, List.map_cons, List.map_singleton, cutTop_first usual_noAngle hd,
    cutTop_name usual_noAngle hd.next, hname, hnext, parameter_variable hn, parameter_variable hm]

end Php

end Stripping

/-! ## Attributes in the literal -/

section Attributes

variable {d : Quoted}

/-- The list without the attributes that the literal seems to hold. -/
def Quoted.withoutAttributes (d : Quoted) : Quoted := { d with body := Php.stripAttributes d.body }

theorem Quoted.WellFormed.withoutAttributes (hd : d.WellFormed) : d.withoutAttributes.WellFormed where
  name := hd.name
  next := hd.next
  quote := hd.quote
  quote_not_mem hmem := hd.quote_not_mem ((Php.sublist_stripAttributes d.body).subset hmem)

/-- What stands behind the body of the literal. -/
def Quoted.back (d : Quoted) : Text := d.quote :: (", ".toList ++ d.next)

theorem list_eq_around (d : Quoted) : d.list = d.front ++ (d.body ++ d.back) := by
  simp [Quoted.list, Quoted.first, Quoted.back]

theorem hash_not_mem_front (hd : d.WellFormed) (hname : '#' ∉ d.name) : '#' ∉ d.front := by
  have hquote : '#' ≠ d.quote := by rcases hd.quote with hq | hq <;> rw [hq] <;> decide
  simp [Quoted.front, hname, hquote]

theorem back_chars (hd : d.WellFormed) (hnext : '#' ∉ d.next) :
    ∀ c ∈ d.back, c ≠ '#' ∧ c ≠ '[' ∧ c ≠ ']' := by
  intro c hc
  have hcases : c = d.quote ∨ c = ',' ∨ c = ' ' ∨ c ∈ d.next := by simpa [Quoted.back] using hc
  rcases hcases with rfl | rfl | rfl | hmem
  · rcases hd.quote with hq | hq <;> rw [hq] <;> decide
  · decide
  · decide
  · have hplain := (hd.next.chars c hmem).2.1
    exact ⟨fun he => hnext (he ▸ hmem), NestedType.ne_of_isTypeBracket hplain (by decide),
      NestedType.ne_of_isTypeBracket hplain (by decide)⟩

theorem stripAttributes_list (hd : d.WellFormed) (hname : '#' ∉ d.name) (hnext : '#' ∉ d.next)
    (h : Php.AttributesEnd d.body) : Php.stripAttributes d.list = d.withoutAttributes.list := by
  rw [list_eq_around, list_eq_around,
    Php.stripAttributes_around (hash_not_mem_front hd hname) (back_chars hd hnext) h]
  rfl

/-- An attribute that does not end in the literal takes the quote behind it. -/
theorem attributesEnd_of_pieces (hd : d.WellFormed) (hname : '#' ∉ d.name) (hnext : '#' ∉ d.next)
    (h : noAngle.pieces (Php.stripAttributes d.list) = [d.withoutAttributes.first, d.next]) :
    Php.AttributesEnd d.body := by
  refine Classical.byContradiction fun hend => ?_
  have hle : (Php.stripAttributes d.list).count d.quote ≤ d.front.count d.quote := by
    rw [list_eq_around]
    exact Php.count_stripAttributes_le (hash_not_mem_front hd hname) (back_chars hd hnext)
      hd.quote_not_mem hend
  have hquote : d.quote ≠ ',' ∧ isBlank d.quote = false := by
    rcases hd.quote with hq | hq <;> rw [hq] <;> decide
  have hfilter := filter_flatten_pieces (q := (· == d.quote)) usual_noAngle
    (fun c hc => beq_false_of_ne (ne_of_blank hc hquote.2)) (beq_false_of_ne (Ne.symm hquote.1))
    (Php.stripAttributes d.list)
  have hcount : (d.withoutAttributes.first ++ d.next).count d.quote =
      (Php.stripAttributes d.list).count d.quote := by
    rw [List.count_eq_length_filter, List.count_eq_length_filter, ← hfilter, h]
    simp
  have hfirst : d.withoutAttributes.first =
      d.front ++ (Php.stripAttributes d.body ++ [d.quote]) := rfl
  rw [← hcount, hfirst] at hle
  simp only [List.count_append, List.count_singleton_self] at hle
  omega

theorem pieces_stripped_iff (hd : d.WellFormed) (hname : '#' ∉ d.name) (hnext : '#' ∉ d.next) :
    noAngle.pieces (Php.stripAttributes d.list) = [d.withoutAttributes.first, d.next] ↔
      Php.AttributesEnd d.body ∧ Contained noAngle (Php.stripAttributes d.body) := by
  have hiff := pieces_quoted_iff usual_noAngle hd.withoutAttributes
  constructor
  · intro h
    have hend := attributesEnd_of_pieces hd hname hnext h
    rw [stripAttributes_list hd hname hnext hend] at h
    exact ⟨hend, hiff.1 h⟩
  · rintro ⟨hend, hcontained⟩
    rw [stripAttributes_list hd hname hnext hend]
    exact hiff.2 hcontained

end Attributes

/-! ## Lists in a language -/

namespace Language

/-- What stands in front of the name of a parameter. -/
def sigil : Language → Text
  | .php => ['$']
  | _ => []

/-- The brackets inside which a comma separates no parameters. -/
def listBrackets : Language → Brackets
  | .go | .php | .python => Brackets.noAngle
  | .java | .rust | .typescript => Brackets.all

/-- What is left of a parameter list before it is split. -/
def cleaned : Language → Text → Text
  | .php, t => Php.stripAttributes t
  | _, t => t

/-- The parameters of a list as they are written. -/
def pieces (l : Language) (t : Text) : List Text := l.listBrackets.pieces (l.cleaned t)

/-- Of a parameter list, nothing but its written parameters is read. -/
theorem parameters_eq_of_pieces {l : Language} {t u : Text} (h : l.pieces t = l.pieces u) :
    l.parameters t = l.parameters u := by
  cases l with
  | typescript => exact congrArg (List.filterMap Script.parameter?) h
  | go => exact congrArg (Go.resolve []) h
  | java => exact congrArg (List.map Java.parameter) h
  | rust => exact congrArg (List.map Rust.parameter) h
  | php => exact congrArg (List.map fun p => Php.parameter (Brackets.noAngle.cutTop '=' p)) h
  | python =>
    have hpieces : Brackets.noAngle.pieces t = Brackets.noAngle.pieces u := h
    show Python.parameters t = Python.parameters u
    rw [Python.parameters, Python.parameters, hpieces]

/-- A literal that is part of one parameter, whole but for its attributes. -/
structure Keeps (l : Language) (w : Text) : Prop where
  attributes : l = .php → Php.AttributesEnd w
  contained : Contained l.listBrackets (l.cleaned w)

/-- The brackets of every language are usual ones. -/
theorem usual_listBrackets (l : Language) : l.listBrackets.Usual := by
  cases l <;> decide

end Language

namespace Quoted

/-- The list with its names as a language writes them. -/
def writtenIn (l : Language) (d : Quoted) : Quoted :=
  { d with name := l.sigil ++ d.name, next := l.sigil ++ d.next }

/-- The list as it is split. -/
def cleanedIn (l : Language) (d : Quoted) : Quoted :=
  { d.writtenIn l with body := l.cleaned d.body }

end Quoted

theorem isPlainName_sigil (l : Language) {n : Text} (h : IsPlainName n) : IsPlainName (l.sigil ++ n) := by
  have hsigil : ∀ c ∈ l.sigil, isBlank c = false ∧ isTypeBracket c = false ∧
      c ∉ [',', ':', '=', '*', '/'] := by
    refine forall_mem_of_all ?_
    cases l <;> decide
  refine ⟨fun he => h.ne_nil (List.append_eq_nil_iff.1 he).2, fun c hc => ?_⟩
  exact (List.mem_append.1 hc).elim (hsigil c) (h.chars c)

theorem Quoted.WellFormed.writtenIn {d : Quoted} (hd : d.WellFormed) (l : Language) :
    (d.writtenIn l).WellFormed where
  name := isPlainName_sigil l hd.name
  next := isPlainName_sigil l hd.next
  quote := hd.quote
  quote_not_mem := hd.quote_not_mem

theorem hash_not_mem_variable {n : Text} (h : isName n = true) : '#' ∉ '$' :: n := by
  have hn : '#' ∉ n := not_mem_of_all (all_isWord_of_isName h) (by decide)
  simp [hn]

/-- A list is split between its two parameters exactly when the language keeps the literal together. -/
theorem pieces_writtenIn_iff {l : Language} {d : Quoted} (hd : d.WellFormed)
    (hnames : l = .php → isName d.name = true ∧ isName d.next = true) :
    l.pieces (d.writtenIn l).list = [(d.cleanedIn l).first, (d.cleanedIn l).next] ↔ l.Keeps d.body := by
  by_cases hl : l = .php
  · subst hl
    obtain ⟨hname, hnext⟩ := hnames rfl
    have hiff := pieces_stripped_iff (hd.writtenIn .php) (hash_not_mem_variable hname)
      (hash_not_mem_variable hnext)
    exact hiff.trans ⟨fun h => ⟨fun _ => h.1, h.2⟩, fun h => ⟨h.attributes rfl, h.contained⟩⟩
  · have hcleaned (t : Text) : l.cleaned t = t := by
      cases l <;> first | rfl | exact absurd rfl hl
    have hquoted : d.cleanedIn l = d.writtenIn l := by
      rw [Quoted.cleanedIn, hcleaned]
      rfl
    rw [Language.pieces, hcleaned, hquoted, pieces_quoted_iff l.usual_listBrackets (hd.writtenIn l)]
    exact ⟨fun h => ⟨fun he => absurd he hl, by rwa [hcleaned]⟩, fun h => by
      have hcontained := h.contained
      rwa [hcleaned] at hcontained⟩

/-- A list of two parameters, the first with a literal as its default, in Python, PHP or TypeScript. It is
    split between them exactly when the language keeps the literal together. Then it has two parameters
    without types, the two names, unless an arrow in the literal keeps the default in TypeScript. -/
theorem parameters_quoted {l : Language} (hl : l ∈ [Language.python, .php, .typescript]) {d : Quoted}
    (hd : d.WellFormed) (hnames : l = .php → isName d.name = true ∧ isName d.next = true) :
    (l.pieces (d.writtenIn l).list = [(d.cleanedIn l).first, (d.cleanedIn l).next] ↔ l.Keeps d.body) ∧
    (l.Keeps d.body → (l = .typescript → ¬ fatArrow <:+: d.body) →
      l.parameters (d.writtenIn l).list = [{ name := d.name }, { name := d.next }]) ∧
    (l.Keeps d.body → l = .typescript → fatArrow <:+: d.body →
      ∃ p, '=' ∈ p.name ∧ l.parameters (d.writtenIn l).list = [p, { name := d.next }]) := by
  have hpieces := pieces_writtenIn_iff hd hnames
  refine ⟨hpieces, fun hkeeps harrow => ?_, fun hkeeps hscript harrow => ?_⟩
  · have hsplit := hpieces.2 hkeeps
    have hcases : l = .python ∨ l = .php ∨ l = .typescript := by simpa using hl
    rcases hcases with rfl | rfl | rfl
    · exact Python.parameters_of_pieces hd hsplit
    · obtain ⟨hname, hnext⟩ := hnames rfl
      exact Php.parameters_of_pieces (hd.writtenIn .php).withoutAttributes hname hnext rfl rfl hsplit
    · exact Script.parameters_of_pieces hd (Script.parameter?_first hd (harrow rfl)) hsplit
  · subst hscript
    obtain ⟨p, hp, hequals⟩ := Script.parameter?_first_of_arrow hd harrow
    exact ⟨p, hequals, Script.parameters_of_pieces hd hp (hpieces.2 hkeeps)⟩

/-- A literal that holds a comma in brackets of its own. -/
def groupedDefault : Quoted where
  name := "label".toList
  quote := '"'
  body := "(a, b): c".toList
  next := "limit".toList

/-- A literal that is a comma. -/
def commaDefault : Quoted where
  name := "sep".toList
  quote := '"'
  body := ",".toList
  next := "limit".toList

theorem groupedDefault_wellFormed : groupedDefault.WellFormed :=
  ⟨⟨by decide, forall_mem_of_all (by decide)⟩, ⟨by decide, forall_mem_of_all (by decide)⟩, .inr rfl,
    by decide⟩

theorem commaDefault_wellFormed : commaDefault.WellFormed :=
  ⟨⟨by decide, forall_mem_of_all (by decide)⟩, ⟨by decide, forall_mem_of_all (by decide)⟩, .inr rfl,
    by decide⟩

theorem keeps_groupedDefault {l : Language} (hl : l ∈ [Language.python, .php, .typescript]) :
    l.Keeps groupedDefault.body := by
  have hfree : cut? Php.attributeMark groupedDefault.body = none := by decide
  have hcases : l = .python ∨ l = .php ∨ l = .typescript := by simpa using hl
  rcases hcases with rfl | rfl | rfl
  · exact ⟨nofun, ⟨by decide, by decide⟩⟩
  · refine ⟨fun _ => .clean hfree, ?_⟩
    rw [Language.cleaned, Php.stripAttributes_of_none hfree]
    exact ⟨by decide, by decide⟩
  · exact ⟨nofun, ⟨by decide, by decide⟩⟩

theorem parameters_quoted_groupedDefault :
    Language.python.parameters "label = \"(a, b): c\", limit".toList =
      [{ name := "label".toList }, { name := "limit".toList }] ∧
    Language.php.parameters "$label = \"(a, b): c\", $limit".toList =
      [{ name := "label".toList }, { name := "limit".toList }] ∧
    Language.typescript.parameters "label = \"(a, b): c\", limit".toList =
      [{ name := "label".toList }, { name := "limit".toList }] := by
  have hpython := parameters_quoted (l := .python) (by decide) groupedDefault_wellFormed nofun
  have hphp := parameters_quoted (l := .php) (by decide) groupedDefault_wellFormed
    fun _ => ⟨by decide, by decide⟩
  have hscript := parameters_quoted (l := .typescript) (by decide) groupedDefault_wellFormed nofun
  have hnoArrow : ¬ fatArrow <:+: groupedDefault.body := fun harrow =>
    absurd (harrow.subset (show '=' ∈ fatArrow by decide)) (by decide)
  exact ⟨hpython.2.1 (keeps_groupedDefault (by decide)) nofun,
    hphp.2.1 (keeps_groupedDefault (by decide)) nofun,
    hscript.2.1 (keeps_groupedDefault (by decide)) fun _ => hnoArrow⟩

/-- The comma of a literal separates parameters: the quote behind it is one. -/
theorem parameters_commaDefault : commaDefault.WellFormed ∧
    commaDefault.list = "sep = \",\", limit".toList ∧
    Language.python.parameters commaDefault.list ≠
      [{ name := commaDefault.name }, { name := commaDefault.next }] := by
  refine ⟨commaDefault_wellFormed, by decide, ?_⟩
  have hread : Language.python.parameters commaDefault.list =
      [{ name := "sep".toList }, { name := "\"".toList }, { name := "limit".toList }] := by
    decide
  rw [hread]
  decide

end Synopsis
