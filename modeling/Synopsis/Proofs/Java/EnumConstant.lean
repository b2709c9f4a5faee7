import Mathlib.Data.List.Forall2
import Synopsis.Proofs.Fragment
import Synopsis.Proofs.Java.Agreement
import Synopsis.Proofs.Java.TypeTree

/-!
# Java: enum constants

The constants of an enum stand in front of its members, and commas separate them. A header runs on
across commas, so constants in a row are one header up to the next body or the semicolon, and a header
that begins behind a body begins with a comma. Such a header is none of a member if a comma follows its
first list (`member?_of_comma`) or if nothing but blanks precedes its name. In between are the constants
that are `Exposed`: they end their header, no list is in front of theirs, and other constants are, which
are taken for a return type (`member?_constant`).

So an enum is read as though it had no constants where none is exposed (`extract_enum`), and a method is
made up for each one that is (`extract_exposedConstants`).
-/

namespace Synopsis.Java

open Text

/-! ## Constants -/

/-- A constant of an enum: a name, and perhaps arguments and a body. -/
structure Constant where
  name : Text
  arguments : Option Text
  body : Option Text
deriving DecidableEq, Repr

namespace Constant

/-- A constant without its body. -/
def head (c : Constant) : Text :=
  c.name ++ (c.arguments.map fun a => '(' :: (a ++ [')'])).getD []

/-- A constant as it is written. -/
def text (c : Constant) : Text :=
  c.head ++ (c.body.map fun b => " \x7b".toList ++ b ++ ['}']).getD []

/-- Whether a character may stand among arguments. -/
def isArgumentChar (c : Char) : Bool := !(isQuote c || c == '@')

/-- A constant that is not named like its enum, whose parentheses and braces are matched, and whose
    arguments hold no literals and annotations. -/
structure WellFormed (owner : Text) (c : Constant) : Prop where
  isName : isDollarName c.name = true
  other : c.name ≠ owner
  chars : ∀ a ∈ c.arguments, a.all isArgumentChar = true
  closed : ∀ a ∈ c.arguments, depthAfter '(' ')' 1 a = some 1
  arguments : ∀ a ∈ c.arguments, Body a
  body : ∀ b ∈ c.body, Body b

end Constant

/-- The constants of an enum as they are written, with blanks in front of them. -/
def constantsText (gap : Text) (cs : List Constant) : Text := gap ++ join ", " (cs.map Constant.text)

/-- An enum and all that stands behind its opening brace. -/
def enumText (owner inside : Text) : Text :=
  "enum".toList ++ ' ' :: (owner ++ [' ']) ++ '{' :: inside

/-! ## Which constants look like members -/

/-- No constant since the last body has arguments. `earlier` are the constants before a place, the last
    one first. -/
def Quiet (earlier : List Constant) : Prop :=
  ∀ d ∈ earlier.takeWhile (·.body.isNone), d.arguments = none

instance (earlier : List Constant) : Decidable (Quiet earlier) :=
  inferInstanceAs (Decidable (∀ d ∈ earlier.takeWhile (·.body.isNone), d.arguments = none))

/-- A constant whose arguments are the first in its header and at the end of it, with other constants in
    front: what precedes it is taken for a return type. -/
def Exposed (earlier : List Constant) (c : Constant) (later : List Constant) : Prop :=
  c.arguments.isSome = true ∧ (c.body.isSome = true ∨ later = []) ∧ earlier ≠ [] ∧ Quiet earlier

instance (earlier : List Constant) (c : Constant) (later : List Constant) :
    Decidable (Exposed earlier c later) :=
  inferInstanceAs (Decidable (_ ∧ _ ∧ _ ∧ _))

/-- The constants that look like members, behind those that stand before them. -/
def exposedFrom : (earlier : List Constant) → List Constant → List Constant
  | _, [] => []
  | earlier, c :: later =>
    (if Exposed earlier c later then [c] else []) ++ exposedFrom (c :: earlier) later

/-- The constants of an enum that look like members. -/
def exposed (cs : List Constant) : List Constant := exposedFrom [] cs

/-- What is reported of such a constant. -/
def Stray (owner : Text) (c : Constant) (e : Entry) : Prop :=
  ∃ r a, c.arguments = some a ∧ e = .member (some r) c.name (collapse a) owner

theorem exists_stray {owner : Text} {cs : List Constant} {es : List Entry}
    (h : List.Forall₂ (Stray owner) cs es) {c : Constant} (hc : c ∈ cs) : ∃ e ∈ es, Stray owner c e := by
  induction h with
  | nil => cases hc
  | @cons d e cs es hd _ ih =>
    rcases List.mem_cons.1 hc with rfl | hc
    · exact ⟨e, List.mem_cons_self, hd⟩
    · obtain ⟨e', he', hstray⟩ := ih hc
      exact ⟨e', List.mem_cons_of_mem e he', hstray⟩

/-! ## Headers -/

/-- No blank follows a word directly. -/
def Spaced (t : Text) : Prop :=
  ∀ a c u, t = a ++ c :: u → isBlank c = true → notAfter isWord a.getLast? = true

theorem Spaced.of_blank {g : Text} (hg : blank g = true) : Spaced g := by
  rintro a c u rfl -
  cases hl : a.getLast? with
  | none => rfl
  | some x =>
    have hx : isBlank x = true :=
      List.all_eq_true.1 hg x (List.mem_append_left _ (List.mem_of_getLast? hl))
    simp [notAfter, isWord_of_blank hx]

theorem Spaced.concat {t : Text} {x : Char} (ht : Spaced t)
    (hx : isBlank x = true → notAfter isWord t.getLast? = true) : Spaced (t ++ [x]) := by
  intro a c u h hc
  rcases List.eq_nil_or_concat u with rfl | ⟨u, y, hu⟩
  · obtain ⟨rfl, hlast⟩ := List.append_inj' h rfl
    obtain ⟨rfl, -⟩ := List.cons.inj hlast
    exact hx hc
  · rw [hu, List.concat_eq_append, ← List.cons_append, ← List.append_assoc] at h
    exact ht a c u (List.append_inj' h rfl).1 hc

theorem Spaced.append_solid {t n : Text} (ht : Spaced t) (hn : ∀ c ∈ n, isBlank c = false) :
    Spaced (t ++ n) := by
  induction n generalizing t with
  | nil => rwa [List.append_nil]
  | cons x n ih =>
    obtain ⟨hx, hn⟩ := List.forall_mem_cons.1 hn
    have hstep := ih (ht.concat fun hblank => Bool.noConfusion (hx.symm.trans hblank)) hn
    rwa [List.append_assoc, List.singleton_append] at hstep

theorem Spaced.append_comma {t : Text} (ht : Spaced t) : Spaced (t ++ ", ".toList) := by
  have hcomma : Spaced (t ++ [',']) := ht.append_solid (List.forall_mem_singleton.2 (by decide))
  have hspace : Spaced (t ++ [','] ++ [' ']) := hcomma.concat fun _ => by
    rw [List.getLast?_concat]
    decide
  rwa [List.append_assoc] at hspace

/-- A header declares no type if up to its first parenthesis no blank but the last ones follows a word. -/
theorem typeName?_of_spaced {h p g : Text} (hat : '@' ∉ h) (hbefore : before '(' h = p ++ g)
    (hequals : '=' ∉ p) (hp : Spaced p) (hg : blank g = true) : typeName? h = none := by
  have hlast : ∀ w ∈ typeWords, notAfter isWord w.toList.getLast? = false := by decide
  have hnone : firstSite? typeAt? (p ++ g) = none := by
    refine firstSite?_eq_none fun a b hab => ?_
    cases hread : typeAt? (.between a b) with
    | none => rfl
    | some found =>
      obtain ⟨-, w, hw, c, u, hc, hu, rfl⟩ := exists_word_of_typeAt? hread
      have hcut : p ++ g = (a ++ w.toList ++ [c]) ++ u := by simp [hab]
      rcases List.append_eq_append_iff.1 hcut with ⟨d, -, rfl⟩ | ⟨d, rfl, -⟩
      · rw [blank_append, hu, Bool.and_false] at hg
        cases hg
      · have hword := hp (a ++ w.toList) c d (by simp) hc
        rw [List.getLast?_append_of_ne_nil _ (solid_of_typeWord w hw).1, hlast w hw] at hword
        cases hword
  have hfree : '=' ∉ p ++ g := by simp [hequals, not_mem_of_all (x := '=') hg (by decide)]
  rw [typeName?, stripAnnotations_eq_self hat, hbefore]
  simp [hfree, hnone]

/-- Whether a character may stand in a row of names. -/
def isListingChar (c : Char) : Bool := isDollarWord c || c == ',' || isBlank c

/-- A row of names that a comma ends is taken for a return type, whatever modifiers are among them. -/
theorem returnType_listing {u : Text} (h : (u ++ ", ".toList).all isListingChar = true) :
    (collapse (skipModifiers (trim (u ++ ", ".toList)))).isEmpty = false ∧
      (collapse (skipModifiers (trim (u ++ ", ".toList)))).all isTypeChar = true := by
  have hangle : '<' ∉ trim (u ++ ", ".toList) := fun hx =>
    not_mem_of_all h (by decide) (mem_of_mem_trim hx)
  obtain ⟨hsuffix, hkept⟩ := skipModifiers_of_not_mem hangle
  constructor
  · have hcomma : ',' ∈ collapse (skipModifiers (trim (u ++ ", ".toList))) := by
      rw [mem_collapse_iff (by decide)]
      refine hkept ?_
      rw [show u ++ ", ".toList = u ++ ',' :: [' '] from rfl, trim_append_cons (by decide)]
      exact List.mem_append_right _ List.mem_cons_self
    exact List.isEmpty_eq_false_iff.2 (List.ne_nil_of_mem hcomma)
  · refine List.all_eq_true.2 fun x hx => ?_
    cases hblank : isBlank x with
    | true => simp [isTypeChar, hblank]
    | false =>
      have hmem := mem_of_mem_trim (hsuffix.subset ((mem_collapse_iff hblank).1 hx))
      have hchar := List.all_eq_true.1 h x hmem
      rw [isListingChar, hblank, Bool.or_false, Bool.or_eq_true, beq_iff_eq] at hchar
      rcases hchar with hchar | rfl
      · simp [isTypeChar, hchar]
      · decide

/-! ## What stands in front of a constant -/

/-- The header that a constant goes on: the blanks behind the brace of the enum, or the comma behind a
    body, and all constants since. -/
def lead (gap : Text) : (earlier : List Constant) → Text
  | [] => gap
  | c :: earlier =>
    if c.body.isSome then ", ".toList else lead gap earlier ++ (c.head ++ ", ".toList)

theorem all_isListingChar {name : Text} (h : isDollarName name = true) :
    name.all isListingChar = true :=
  List.all_eq_true.2 fun c hc => by
    rw [isListingChar, List.all_eq_true.1 (all_isDollarWord h).2 c hc]
    rfl

theorem head_of_none {c : Constant} (h : c.arguments = none) : c.head = c.name := by
  rw [Constant.head, h]
  exact List.append_nil _

theorem head_of_some {c : Constant} {a : Text} (h : c.arguments = some a) :
    c.head = c.name ++ '(' :: (a ++ [')']) := by
  rw [Constant.head, h]
  rfl

theorem lead_of_isSome {gap : Text} {c : Constant} (h : c.body.isSome = true)
    (earlier : List Constant) : lead gap (c :: earlier) = ", ".toList := if_pos h

theorem lead_of_isNone {gap : Text} {c : Constant} (h : c.body.isSome = false)
    (earlier : List Constant) :
    lead gap (c :: earlier) = lead gap earlier ++ (c.head ++ ", ".toList) := if_neg (by simp [h])

theorem quiet_cons_iff {c : Constant} (h : c.body.isSome = false) (earlier : List Constant) :
    Quiet (c :: earlier) ↔ c.arguments = none ∧ Quiet earlier := by
  rw [Quiet, List.takeWhile_cons_of_pos (by simpa using h)]
  exact List.forall_mem_cons

section Lead

variable {owner gap : Text} (hgap : blank gap = true) {earlier : List Constant}
  (hearlier : ∀ d ∈ earlier, d.WellFormed owner)

include hgap hearlier

/-- Without arguments, what stands in front of a constant is a row of names. -/
theorem lead_of_quiet (hquiet : Quiet earlier) :
    Spaced (lead gap earlier) ∧ (lead gap earlier).all isListingChar = true := by
  induction earlier with
  | nil =>
    refine ⟨.of_blank hgap, List.all_eq_true.2 fun c hc => ?_⟩
    rw [isListingChar, List.all_eq_true.1 hgap c hc, Bool.or_true]
  | cons c earlier ih =>
    cases hbody : c.body.isSome with
    | true =>
      rw [lead_of_isSome hbody]
      exact ⟨Spaced.append_comma (t := []) (.of_blank rfl), by decide⟩
    | false =>
      have hname := (hearlier c List.mem_cons_self).isName
      obtain ⟨hnone, hrest⟩ := (quiet_cons_iff hbody earlier).1 hquiet
      obtain ⟨hspaced, hchars⟩ := ih (fun d hd => hearlier d (List.mem_cons_of_mem c hd)) hrest
      rw [lead_of_isNone hbody, head_of_none hnone, ← List.append_assoc]
      refine ⟨(hspaced.append_solid (solid_of_isDollarName hname)).append_comma, ?_⟩
      rw [List.all_append, List.all_append, hchars, all_isListingChar hname]
      decide

/-- Behind other constants such a row has a comma at its end. -/
theorem exists_listing (hquiet : Quiet earlier) (hne : earlier ≠ []) :
    ∃ g u, lead gap earlier = g ++ (u ++ ", ".toList) ∧ blank g = true ∧
      (u ++ ", ".toList).head?.any isBlank = false := by
  induction earlier with
  | nil => exact absurd rfl hne
  | cons c earlier ih =>
    cases hbody : c.body.isSome with
    | true => exact ⟨[], [], lead_of_isSome hbody earlier, rfl, rfl⟩
    | false =>
      have hname := (hearlier c List.mem_cons_self).isName
      obtain ⟨hnone, hrest⟩ := (quiet_cons_iff hbody earlier).1 hquiet
      have hstart (t : Text) : (c.name ++ t).head?.any isBlank = false := by
        obtain ⟨x, v, hv⟩ := List.exists_cons_of_ne_nil (all_isDollarWord hname).1
        rw [hv]
        exact solid_of_isDollarName hname x (by simp [hv])
      rw [lead_of_isNone hbody, head_of_none hnone]
      by_cases hfirst : earlier = []
      · subst hfirst
        exact ⟨gap, c.name, rfl, hgap, hstart _⟩
      · obtain ⟨g, u, hlead, hg, hhead⟩ :=
          ih (fun d hd => hearlier d (List.mem_cons_of_mem c hd)) hrest hfirst
        refine ⟨g, u ++ ", ".toList ++ c.name, by simp [hlead], hg, ?_⟩
        cases u with
        | nil => rfl
        | cons x u => exact hhead

/-- With arguments since the last body, a comma follows the first list. -/
theorem exists_comma (hquiet : ¬ Quiet earlier) :
    ∃ p a q, lead gap earlier = p ++ '(' :: (a ++ ')' :: ',' :: q) ∧ Spaced p ∧
      p.all isListingChar = true ∧ depthAfter '(' ')' 1 a = some 1 := by
  induction earlier with
  | nil => exact absurd (List.forall_mem_nil _) hquiet
  | cons c earlier ih =>
    cases hbody : c.body.isSome with
    | true =>
      refine absurd (fun d hd => ?_) hquiet
      rw [List.takeWhile_cons_of_neg (by simp [Option.isSome_iff_ne_none.1 hbody])] at hd
      cases hd
    | false =>
      have hwell := hearlier c List.mem_cons_self
      have hrest (d : Constant) (hd : d ∈ earlier) := hearlier d (List.mem_cons_of_mem c hd)
      rw [lead_of_isNone hbody]
      by_cases hbefore : Quiet earlier
      · obtain ⟨hspaced, hchars⟩ := lead_of_quiet hgap hrest hbefore
        cases hargs : c.arguments with
        | none => exact absurd ((quiet_cons_iff hbody earlier).2 ⟨hargs, hbefore⟩) hquiet
        | some a =>
          refine ⟨lead gap earlier ++ c.name, a, [' '], by simp [head_of_some hargs],
            hspaced.append_solid (solid_of_isDollarName hwell.isName), ?_, hwell.closed a hargs⟩
          rw [List.all_append, hchars, all_isListingChar hwell.isName]
          rfl
      · obtain ⟨p, a, q, hlead, hp⟩ := ih hrest hbefore
        exact ⟨p, a, q ++ (c.head ++ ", ".toList), by simp [hlead], hp⟩

end Lead

/-! ## Headers of constants -/

section Header

variable {owner gap : Text} {c : Constant} (hc : c.WellFormed owner)

include hc

theorem isQuote_of_arguments {a : Text} (ha : a ∈ c.arguments) : ∀ x ∈ a, isQuote x = false := by
  intro x hx
  have hx := List.all_eq_true.1 (hc.chars a ha) x hx
  simp only [Constant.isArgumentChar, Bool.not_eq_true', Bool.or_eq_false_iff] at hx
  exact hx.1

theorem isHeader_head : IsHeader c.head := by
  have hname : IsHeader c.name :=
    isHeader_of_all (all_isHeaderChar (by decide) (all_isDollarWord hc.isName).2)
  cases hargs : c.arguments with
  | none => rwa [head_of_none hargs]
  | some a =>
    rw [head_of_some hargs]
    exact hname.append (isHeader_group (isQuote_of_arguments hc hargs) (hc.closed a hargs))

theorem at_not_mem_head : '@' ∉ c.head := by
  have hname : '@' ∉ c.name := not_mem_of_all (all_isDollarWord hc.isName).2 (by decide)
  cases hargs : c.arguments with
  | none => rwa [head_of_none hargs]
  | some a =>
    have hargs' : '@' ∉ a := not_mem_of_all (hc.chars a hargs) (by decide)
    simp [head_of_some hargs, hname, hargs']

theorem Constant.body_append {t : Text} (ht : Body t) : Body (c.text ++ t) := by
  have hname : c.name.all isPlain = true := all_isPlain (by decide) (all_isDollarWord hc.isName).2
  have hbody : Body ((c.body.map fun b => " \x7b".toList ++ b ++ ['}']).getD [] ++ t) := by
    cases hb : c.body with
    | none => exact ht
    | some b =>
      have h := Body.plain_append (s := [' ']) (by decide) (.block (hc.body b hb) ht)
      simpa using h
  rw [Constant.text, List.append_assoc]
  cases hargs : c.arguments with
  | none =>
    rw [head_of_none hargs]
    exact .plain_append hname hbody
  | some a =>
    have hclose := Body.plain_append (s := [')']) (by decide) hbody
    have hlist := Body.append (hc.arguments a hargs) (isQuote_of_arguments hc hargs) hclose
    have h := Body.plain_append hname (.plain_append (s := ['(']) (by decide) hlist)
    simpa [head_of_some hargs] using h

end Header

section Member

variable {owner gap tail : Text} (hgap : blank gap = true) (htail : blank tail = true)
  {earlier : List Constant} (hearlier : ∀ d ∈ earlier, d.WellFormed owner) {c : Constant}
  (hc : c.WellFormed owner)

theorem isHeader_lead (hgap : blank gap = true) (hearlier : ∀ d ∈ earlier, d.WellFormed owner) :
    IsHeader (lead gap earlier) ∧ '@' ∉ lead gap earlier := by
  induction earlier with
  | nil =>
    exact ⟨isHeader_of_all (all_isHeaderChar_of_blank hgap), not_mem_of_all hgap (by decide)⟩
  | cons d earlier ih =>
    have hd := hearlier d List.mem_cons_self
    have hcomma : IsHeader ", ".toList := isHeader_of_all (by decide)
    cases hbody : d.body.isSome with
    | true =>
      rw [lead_of_isSome hbody]
      exact ⟨hcomma, by decide⟩
    | false =>
      obtain ⟨hheader, hat⟩ := ih fun e he => hearlier e (List.mem_cons_of_mem d he)
      rw [lead_of_isNone hbody]
      refine ⟨hheader.append ((isHeader_head hd).append hcomma), ?_⟩
      simp [hat, at_not_mem_head hd]

include hgap htail hearlier hc

theorem at_not_mem_header : '@' ∉ lead gap earlier ++ (c.head ++ tail) := by
  simp [(isHeader_lead hgap hearlier).2, at_not_mem_head hc, not_mem_of_all (x := '@') htail (by decide)]

/-- The header of a constant declares no type. -/
theorem typeName?_constant : typeName? (lead gap earlier ++ (c.head ++ tail)) = none := by
  have hat := at_not_mem_header hgap htail hearlier hc
  by_cases hquiet : Quiet earlier
  · obtain ⟨hspaced, hchars⟩ := lead_of_quiet hgap hearlier hquiet
    have hrow : (lead gap earlier ++ c.name).all isListingChar = true := by
      rw [List.all_append, hchars, all_isListingChar hc.isName]
      rfl
    have hname := hspaced.append_solid (solid_of_isDollarName hc.isName)
    cases hargs : c.arguments with
    | none =>
      refine typeName?_of_spaced hat (p := lead gap earlier ++ c.name) (g := tail) ?_
        (not_mem_of_all hrow (by decide)) hname htail
      rw [head_of_none hargs, ← List.append_assoc, before_eq_self]
      rw [List.mem_append, not_or]
      exact ⟨not_mem_of_all hrow (by decide), not_mem_of_all htail (by decide)⟩
    | some a =>
      refine typeName?_of_spaced hat (p := lead gap earlier ++ c.name) (g := []) ?_
        (not_mem_of_all hrow (by decide)) hname rfl
      rw [head_of_some hargs, List.append_nil, List.append_assoc, ← List.append_assoc,
        List.cons_append, before_append (not_mem_of_all hrow (by decide))]
  · obtain ⟨p, a, q, hlead, hspaced, hchars, -⟩ := exists_comma hgap hearlier hquiet
    refine typeName?_of_spaced hat (p := p) (g := []) ?_ (not_mem_of_all hchars (by decide))
      hspaced rfl
    rw [hlead, List.append_nil, List.append_assoc, List.cons_append,
      before_append (not_mem_of_all hchars (by decide))]

/-- A constant that ends its header is reported exactly if it is exposed. -/
theorem member?_constant {later : List Constant} (hends : c.body.isSome = true ∨ later = []) :
    List.Forall₂ (Stray owner) (if Exposed earlier c later then [c] else [])
      (member? owner (lead gap earlier ++ (c.head ++ tail))).toList := by
  have hat := at_not_mem_header hgap htail hearlier hc
  by_cases hquiet : Quiet earlier
  · obtain ⟨hspaced, hchars⟩ := lead_of_quiet hgap hearlier hquiet
    cases hargs : c.arguments with
    | none =>
      have hnot : ¬ Exposed earlier c later := by
        rintro ⟨hsome, -⟩
        rw [hargs] at hsome
        cases hsome
      have hfree : '(' ∉ lead gap earlier ++ (c.name ++ tail) := by
        simp [not_mem_of_all (x := '(') hchars (by decide),
          not_mem_of_all (x := '(') (all_isDollarWord hc.isName).2 (by decide),
          not_mem_of_all (x := '(') htail (by decide)]
      rw [if_neg hnot, head_of_none hargs, member?_of_not_mem hfree]
      exact .nil
    | some a =>
      have hclosed := hc.closed a hargs
      have hparams : '@' ∉ a := not_mem_of_all (hc.chars a hargs) (by decide)
      by_cases hfirst : earlier = []
      · subst hfirst
        have hnot : ¬ Exposed [] c later := fun h => h.2.2.1 rfl
        have hheader : lead gap [] ++ (c.head ++ tail) = gap ++ (memberHeader [] c.name a ++ tail) := by
          rw [head_of_some hargs]
          rfl
        have hskip : skipModifiers [] = [] := skipModifiers_eq_self (by decide)
        rw [if_neg hnot, hheader, member?_memberHeader hgap htail
          isLead_nil rfl rfl hc.isName hparams hclosed, trim_nil,
          hskip, collapse_nil, if_pos List.isEmpty_nil, if_neg hc.other]
        exact .nil
      · have hyes : Exposed earlier c later := ⟨by rw [hargs]; rfl, hends, hfirst, hquiet⟩
        obtain ⟨g, u, hlead, hg, hhead⟩ := exists_listing hgap hearlier hquiet hfirst
        rw [hlead, List.all_append, Bool.and_eq_true] at hchars
        have hheader : lead gap earlier ++ (c.head ++ tail) =
            g ++ (memberHeader (u ++ ", ".toList) c.name a ++ tail) := by
          simp [hlead, head_of_some hargs, memberHeader]
        have hisLead : IsLead (u ++ ", ".toList) := by
          intro x hx
          refine ⟨?_, ?_, ?_⟩ <;> rintro rfl <;> exact not_mem_of_all hchars.2 (by decide) hx
        obtain ⟨hsome, htype⟩ := returnType_listing hchars.2
        rw [if_pos hyes, hheader, member?_memberHeader hg htail hisLead hhead
          (by simp [isDollarWord, isWord_of_blank])
          hc.isName hparams hclosed, hsome, if_neg Bool.false_ne_true, if_pos htype]
        exact .cons ⟨_, a, hargs, rfl⟩ .nil
  · obtain ⟨p, a, q, hlead, -, hchars, hclosed⟩ := exists_comma hgap hearlier hquiet
    have hnot : ¬ Exposed earlier c later := fun h => hquiet h.2.2.2
    rw [hlead, List.append_assoc, List.cons_append, List.append_assoc, List.cons_append,
      List.cons_append] at hat ⊢
    rw [if_neg hnot, member?_of_comma hat (not_mem_of_all hchars (by decide)) hclosed]
    exact .nil

end Member

/-! ## Rows of constants -/

theorem exposedFrom_of_not_ends {c : Constant} {later : List Constant} (hbody : c.body.isSome = false)
    (hne : later ≠ []) (earlier : List Constant) :
    exposedFrom earlier (c :: later) = exposedFrom (c :: earlier) later := by
  have hnot : ¬ Exposed earlier c later := by
    rintro ⟨-, hends, -⟩
    rcases hends with h | h
    · rw [hbody] at h
      cases h
    · exact hne h
  rw [exposedFrom, if_neg hnot, List.nil_append]

/-- A body closes the header of a constant, and what follows it begins another one. -/
theorem entries_constant_body {owner gap b : Text} (hgap : blank gap = true) {earlier : List Constant}
    (hearlier : ∀ d ∈ earlier, d.WellFormed owner) {c : Constant} (hc : c.WellFormed owner)
    (hb : c.body = some b) (t : Text) :
    entries (some owner) (lead gap earlier ++ (c.text ++ t)) =
      (member? owner (lead gap earlier ++ (c.head ++ [' ']))).toList ++ entries (some owner) t := by
  have hheader : IsHeader (lead gap earlier ++ (c.head ++ [' '])) :=
    (isHeader_lead hgap hearlier).1.append ((isHeader_head hc).append (isHeader_of_all (by decide)))
  have hnone := typeName?_constant hgap (show blank [' '] = true from rfl) hearlier hc
  have h := entries_block hheader (hc.body b hb) (some owner) t
  simp only [chunkEntries, hnone, Option.bind_some] at h
  simpa [Constant.text, hb] using h

/-- A header without text declares nothing. -/
theorem entries_semicolon (owner t : Text) : entries (some owner) (';' :: t) = entries (some owner) t := by
  have h := entries_statement (h := []) (isHeader_of_all rfl) (some owner) t
  rw [chunkEntries, Option.bind_some, member?_of_not_mem List.not_mem_nil] at h
  exact h

/-- Of constants in a row the exposed ones are reported, and what stands behind them is read as if it
    stood alone. -/
theorem entries_constants {owner gap : Text} (hgap : blank gap = true) {later : List Constant}
    (hlater : ∀ d ∈ later, d.WellFormed owner) {earlier : List Constant}
    (hearlier : ∀ d ∈ earlier, d.WellFormed owner) {c : Constant} (hc : c.WellFormed owner) (t : Text) :
    ∃ es, List.Forall₂ (Stray owner) (exposedFrom earlier (c :: later)) es ∧
      entries (some owner) (lead gap earlier ++ (join ", " ((c :: later).map Constant.text) ++ ';' :: t)) =
        es ++ entries (some owner) t := by
  induction later generalizing earlier c with
  | nil =>
    have hlast : c.body.isSome = true ∨ ([] : List Constant) = [] := .inr rfl
    rw [List.map_singleton, join_singleton]
    cases hb : c.body with
    | none =>
      have hstray := member?_constant hgap blank_nil hearlier hc hlast
      refine ⟨_, by rwa [exposedFrom, exposedFrom, List.append_nil], ?_⟩
      have hheader := (isHeader_lead hgap hearlier).1.append (isHeader_head hc)
      have h := entries_statement hheader (some owner) t
      simpa [Constant.text, hb, chunkEntries] using h
    | some b =>
      have hstray := member?_constant hgap (show blank [' '] = true from rfl) hearlier hc hlast
      refine ⟨_, by rwa [exposedFrom, exposedFrom, List.append_nil], ?_⟩
      rw [entries_constant_body hgap hearlier hc hb, entries_semicolon]
  | cons d later ih =>
    have hd := hlater d List.mem_cons_self
    have hrest (e : Constant) (he : e ∈ later) := hlater e (List.mem_cons_of_mem d he)
    have hnext : ∀ e ∈ c :: earlier, e.WellFormed owner := List.forall_mem_cons.2 ⟨hc, hearlier⟩
    obtain ⟨es, hes, hrun⟩ := ih hrest hnext hd
    rw [List.map_cons, List.map_cons, join_cons_cons]
    cases hb : c.body with
    | none =>
      have hnone : c.body.isSome = false := by rw [hb]; rfl
      refine ⟨es, by rwa [exposedFrom_of_not_ends hnone (List.cons_ne_nil d later)], ?_⟩
      rw [lead_of_isNone hnone] at hrun
      simpa [Constant.text, hb] using hrun
    | some b =>
      have hsome : c.body.isSome = true := by rw [hb]; rfl
      have hends : c.body.isSome = true ∨ d :: later = [] := .inl hsome
      have hstray := member?_constant hgap (show blank [' '] = true from rfl) hearlier hc hends
      refine ⟨_, List.rel_append hstray hes, ?_⟩
      rw [lead_of_isSome hsome] at hrun
      rw [List.append_assoc, List.append_assoc, entries_constant_body hgap hearlier hc hb,
        List.append_assoc, ← hrun]
      rfl

/-! ## Enums -/

theorem body_constantsText {owner gap : Text} (hgap : blank gap = true) {cs : List Constant}
    (hcs : ∀ c ∈ cs, c.WellFormed owner) : Body (constantsText gap cs) := by
  refine .plain_append (all_isPlain_of_blank hgap) ?_
  induction cs with
  | nil => exact .nil
  | cons c cs ih =>
    have hrest := ih fun d hd => hcs d (List.mem_cons_of_mem c hd)
    cases cs with
    | nil =>
      rw [List.map_singleton, join_singleton, ← List.append_nil c.text]
      exact Constant.body_append (hcs c List.mem_cons_self) .nil
    | cons d cs =>
      rw [List.map_cons, List.map_cons, join_cons_cons]
      exact Constant.body_append (hcs c List.mem_cons_self) (.plain_append (by decide) hrest)

/-- The constants of an enum add those entries to its body that exposed constants are taken for. -/
theorem entries_constantsText {owner gap : Text} (hgap : blank gap = true) {cs : List Constant}
    (hcs : ∀ c ∈ cs, c.WellFormed owner) (t : Text) :
    ∃ es, List.Forall₂ (Stray owner) (exposed cs) es ∧
      entries (some owner) (constantsText gap cs ++ ';' :: t) = es ++ entries (some owner) t := by
  cases cs with
  | nil =>
    refine ⟨[], .nil, ?_⟩
    have hheader := isHeader_of_all (all_isHeaderChar_of_blank hgap)
    have hnone := member?_of_not_mem (not_mem_of_all hgap (by decide)) owner
    have h := entries_statement hheader (some owner) t
    rw [chunkEntries, Option.bind_some, hnone] at h
    simpa [constantsText, join] using h
  | cons c cs =>
    rw [constantsText, List.append_assoc]
    have hlater (d : Constant) (hd : d ∈ cs) := hcs d (List.mem_cons_of_mem c hd)
    have hearlier : ∀ d ∈ ([] : List Constant), d.WellFormed owner := List.forall_mem_nil _
    exact entries_constants hgap hlater hearlier (hcs c List.mem_cons_self) t

/-! ## Sources -/

theorem strip_enumText {owner : Text} (howner : isDollarName owner = true) (inside : Text) :
    CommentStyle.slashes.strip (enumText owner inside) =
      enumText owner (CommentStyle.slashes.strip inside) := by
  have hfree : '/' ∉ "enum".toList ++ ' ' :: (owner ++ [' ']) := by
    simp [not_mem_of_all (x := '/') (all_isDollarWord howner).2 (by decide)]
  have hopen : CommentStyle.slashes.strip ('{' :: inside) = '{' :: CommentStyle.slashes.strip inside :=
    CommentStyle.strip_slashes_cons (by decide) inside
  have hall := CommentStyle.strip_slashes_append_of_not_mem hfree ('{' :: inside)
  rwa [hopen] at hall

theorem entries_enumText {owner : Text} (howner : isDollarName owner = true) (t : Text) :
    ∃ body rest, entries none (enumText owner t) =
        .type owner :: entries (some owner) body ++ entries none rest ∧
      ∀ p, Body p → entries none (enumText owner (p ++ ';' :: t)) =
        .type owner :: entries (some owner) (p ++ ';' :: body) ++ entries none rest := by
  have hheader : IsHeader ("enum".toList ++ ' ' :: (owner ++ [' '])) := by
    have hname := all_isHeaderChar (p := isDollarWord) (by decide) (all_isDollarWord howner).2
    refine isHeader_of_all ?_
    rw [List.all_append, List.all_cons, List.all_append, hname]
    decide
  have hname := typeName?_type blank_nil (show "enum" ∈ typeWords by decide) howner
  rw [List.nil_append] at hname
  exact exists_body hheader hname t

/-- A source whose first entry is a type begins with the signature of that type. -/
theorem head?_extract {source name : Text} {es : List Entry} (hblank : blank source = false)
    (hname : isDollarName name = true)
    (h : entries none (CommentStyle.slashes.strip source) = .type name :: es) :
    (Language.java.extract source).head? = some { name } := by
  have hsolid : solidFragments ((Entry.type name :: es).map Entry.fragment) =
      (Entry.type name).fragment :: solidFragments (es.map Entry.fragment) := by
    have htrim : trim (Entry.type name).fragment = (Entry.type name).fragment := trim_type hname
    have hne : (Entry.type name).fragment.isEmpty = false :=
      List.isEmpty_eq_false_iff.2 (fragment_ne_nil _)
    rw [solidFragments, List.map_cons, List.map_cons, htrim, List.filter_cons_of_pos (by rw [hne]; rfl)]
    rfl
  have hfragments : Language.java.fragments source = distinct ((Entry.type name :: es).map Entry.fragment) := by
    rw [← h]
    rfl
  have hsignature : (Language.java.signature (Entry.type name).fragment).toOption = some { name } := by
    have hread : signature (Entry.type name).fragment = .ok { name } := signature_type hname
    rw [Language.signature, hread]
    rfl
  rw [Language.extract, extractWith, hblank, if_neg Bool.false_ne_true, hfragments, distinct_eq, hsolid,
    List.eraseDups_cons, List.filterMap_cons, hsignature]
  rfl

/-- The source of an enum begins with its entry. If none of its constants is exposed, the rest is read as
    though there were no constants; the exposed ones are reported as methods. -/
theorem extract_enum {owner gap : Text} (howner : isDollarName owner = true) (hgap : blank gap = true)
    {cs : List Constant} (hcs : ∀ c ∈ cs, c.WellFormed owner)
    (hblock : ¬ "/*".toList <:+: constantsText gap cs) (hline : ¬ "//".toList <:+: constantsText gap cs)
    (rest : Text) :
    (Language.java.extract (enumText owner (constantsText gap cs ++ ';' :: rest))).head? =
        some { name := owner } ∧
      (exposed cs = [] → Language.java.extract (enumText owner (constantsText gap cs ++ ';' :: rest)) =
        Language.java.extract (enumText owner rest)) ∧
      ∀ c ∈ exposed cs, ∃ r a, c.arguments = some a ∧
        (Entry.member (some r) c.name (collapse a) owner).fragment ∈
          Language.java.fragments (enumText owner (constantsText gap cs ++ ';' :: rest)) := by
  have hstrip : CommentStyle.slashes.strip (enumText owner (constantsText gap cs ++ ';' :: rest)) =
      enumText owner (constantsText gap cs ++ ';' :: CommentStyle.slashes.strip rest) := by
    rw [strip_enumText howner,
      CommentStyle.strip_slashes_append_cons hblock hline (by decide) (by decide)]
  obtain ⟨body, behind, hbare, hwith⟩ := entries_enumText howner (CommentStyle.slashes.strip rest)
  obtain ⟨es, hes, hconstants⟩ := entries_constantsText hgap hcs body
  have hentries := hwith _ (body_constantsText hgap hcs)
  rw [hconstants, ← hstrip] at hentries
  refine ⟨head?_extract rfl howner hentries, fun hnone => ?_, fun c hc => ?_⟩
  · rw [hnone, List.forall₂_nil_left_iff] at hes
    rw [hes, List.nil_append, ← hbare, ← strip_enumText howner] at hentries
    have hfragments : Language.java.fragments (enumText owner (constantsText gap cs ++ ';' :: rest)) =
        Language.java.fragments (enumText owner rest) := by
      rw [Language.fragments, fragments, hentries]
      rfl
    rw [Language.extract, extractWith, hfragments]
    rfl
  · obtain ⟨e, he, r, a, ha, rfl⟩ := exists_stray hes hc
    refine ⟨r, a, ha, mem_fragments_iff.2 ⟨_, ?_, rfl⟩⟩
    rw [hentries]
    simp [he]

/-- Constants of every form, none of them exposed: the second list is not the first in its header. -/
def quietConstants : List Constant :=
  [⟨"A".toList, some "1".toList, none⟩, ⟨"B".toList, none, none⟩,
    ⟨"C".toList, some "f(2)".toList, some " int f() \x7b \x7d ".toList⟩,
    ⟨"D".toList, none, some " ".toList⟩]

/-- The method of an enum, and the end of the enum. -/
def enumRest : Text := " int m() \x7b \x7d \x7d".toList

theorem quietConstants_wellFormed : ∀ c ∈ quietConstants, c.WellFormed "E".toList := by
  have hone : Body "1".toList := .plain_append (s := "1".toList) (by decide) .nil
  have hcall : Body "f(2)".toList := .plain_append (s := "f(2)".toList) (by decide) .nil
  have hspace : Body " ".toList := .plain_append (s := " ".toList) (by decide) .nil
  have hmethod : Body " int f() \x7b \x7d ".toList :=
    .plain_append (s := " int f() ".toList) (by decide) (.block hspace hspace)
  simp only [quietConstants, List.forall_mem_cons]
  refine ⟨⟨by decide, by decide, ?_, ?_, ?_, by simp⟩,
    ⟨by decide, by decide, by simp, by simp, by simp, by simp⟩,
    ⟨by decide, by decide, ?_, ?_, ?_, ?_⟩,
    ⟨by decide, by decide, by simp, by simp, by simp, ?_⟩, List.forall_mem_nil _⟩
  all_goals
    rintro t ⟨⟩
    first | assumption | decide

theorem extract_enum_quietConstants :
    (∀ c ∈ quietConstants, c.WellFormed "E".toList) ∧ exposed quietConstants = [] ∧
      Language.java.extract
          (enumText "E".toList (constantsText [' '] quietConstants ++ ';' :: enumRest)) =
        Language.java.extract (enumText "E".toList enumRest) ∧
      (Language.java.extract (enumText "E".toList enumRest)).map (·.name) =
        ["E".toList, "m".toList] := by
  have hnone : exposed quietConstants = [] := by decide +kernel
  have henum := extract_enum (show isDollarName "E".toList = true by decide)
    (show blank [' '] = true by decide) quietConstants_wellFormed (by decide +kernel) (by decide +kernel) enumRest
  exact ⟨quietConstants_wellFormed, hnone, henum.2.1 hnone, by decide +kernel⟩

/-- A name, and a constant with arguments behind it. -/
def exposedConstants : List Constant := [⟨"A".toList, none, none⟩, ⟨"B".toList, some "1".toList, none⟩]

/-- The second one is reported as a method with the first one and the comma for its return type. -/
theorem extract_exposedConstants :
    (∀ c ∈ exposedConstants, c.WellFormed "E".toList) ∧
      enumText "E".toList (constantsText [' '] exposedConstants ++ ';' :: enumRest) =
        "enum E \x7b A, B(1); int m() \x7b \x7d \x7d".toList ∧
      (Language.java.extract "enum E \x7b A, B(1); int m() \x7b \x7d \x7d".toList).map
          (fun s => (s.name, s.returnType)) =
        [("E".toList, none), ("B".toList, some "A,".toList), ("m".toList, some "int".toList)] := by
  have hone : Body "1".toList := .plain_append (s := "1".toList) (by decide) .nil
  refine ⟨?_, by decide +kernel, by decide +kernel⟩
  simp only [exposedConstants, List.forall_mem_cons]
  refine ⟨⟨by decide, by decide, by simp, by simp, by simp, by simp⟩,
    ⟨by decide, by decide, ?_, ?_, ?_, by simp⟩, List.forall_mem_nil _⟩
  all_goals
    rintro t ⟨⟩
    first | assumption | decide

end Synopsis.Java
