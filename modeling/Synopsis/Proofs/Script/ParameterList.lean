import Mathlib.Data.List.Basic
import Synopsis.Proofs.Nesting.Matched
import Synopsis.Proofs.StringDefault

/-!
# TypeScript: parameter lists as they are written

A parameter is written with modifiers in front, a type behind a colon and a default value behind an equals
sign. Reading a list of such parameters takes three cuts, each with its own way to stay out of brackets: the
list at its commas, a parameter at its equals sign and what is left at its colon. In well-nested texts the
three agree on what is outside, so every parameter comes back with its name and its type
(`parameters_annotated`). Only an arrow stands between a parameter and its default: with one in it, nothing
is cut at an equals sign, so a parameter that has a default must not hold an arrow.
-/

namespace Synopsis.Script

open Text Brackets

/-! ## Parameters as they are written -/

/-- A parameter as it is written: `modifiers binding: type = default`. -/
structure Annotated where
  modifiers : List String
  binding : Text
  type : Option Text
  default : Option Text
deriving DecidableEq, Repr

namespace Annotated

/-- The modifiers and what the parameter binds. -/
def front (p : Annotated) : Text := spaced p.modifiers ++ p.binding

/-- The parameter without its default. -/
def bare (p : Annotated) : Text := p.front ++ p.type.elim [] (": ".toList ++ ·)

def text (p : Annotated) : Text := p.bare ++ p.default.elim [] (" = ".toList ++ ·)

/-- What the parameter declares. -/
def parameter (p : Annotated) : Parameter where
  name := p.binding
  type := p.type

end Annotated

/-- What a parameter can bind: a name, perhaps with dots in front or a question mark behind, or a pattern for
    the parts of an object or an array. -/
inductive IsBinding : Text → Prop
  | name {n : Text} (isRest isOptional : Bool) : IsPlainName n →
      IsBinding ((if isRest then "...".toList else []) ++ n ++ if isOptional then ['?'] else [])
  | object {s : Text} : all.WellNested s → IsBinding ('{' :: s ++ ['}'])
  | array {s : Text} : all.WellNested s → IsBinding ('[' :: s ++ [']'])

/-- A type or a default value: well nested, with its commas in brackets. -/
structure IsOperand (t : Text) : Prop where
  ne_nil : t ≠ []
  trimmed : trim t = t
  nested : all.WellNested t
  commas : all.Encloses ',' t

/-- An equals sign outside brackets is the first half of an arrow. -/
def OnlyArrows (t : Text) : Prop := ∀ a r, t = a ++ '=' :: r → all.WellNested a → r.head? = some '>'

theorem onlyArrows_iff {t : Text} : OnlyArrows t ↔ ∀ k ∈ List.range (t.length + 1),
    (t.drop k).head? = some '=' → all.WellNested (t.take k) → (t.drop k).tail.head? = some '>' := by
  constructor
  · intro h k _ hhead
    obtain ⟨r, hr⟩ := List.head?_eq_some_iff.1 hhead
    rw [hr]
    exact h (t.take k) r (by rw [← hr, List.take_append_drop])
  · intro h a r hcut
    exact forall_cut_of_range (p := fun a r => r.head? = some '=' → all.WellNested a →
      r.tail.head? = some '>') h hcut rfl

instance (t : Text) : Decidable (OnlyArrows t) := decidable_of_iff _ onlyArrows_iff.symm

/-- A parameter whose parts can be told apart. -/
structure Annotated.WellFormed (p : Annotated) : Prop where
  modifiers : ∀ m ∈ p.modifiers, m ∈ parameterModifiers
  binding : IsBinding p.binding
  type : ∀ t ∈ p.type, IsOperand t ∧ OnlyArrows t
  default : ∀ d ∈ p.default, IsOperand d
  arrow : p.default ≠ none → ¬ fatArrow <:+: p.text

/-! ## Bindings -/

theorem wellNested_of_not_bracket {s : Text} (h : ∀ c ∈ s, isTypeBracket c = false) : all.WellNested s :=
  .of_plain fun c hc => Bool.or_eq_false_iff.1 (h c hc)

namespace IsBinding

variable {n : Text}

theorem isPlainName {n : Text} (isRest isOptional : Bool) (h : IsPlainName n) :
    IsPlainName ((if isRest then "...".toList else []) ++ n ++ if isOptional then ['?'] else []) := by
  refine ⟨by simp [h.ne_nil], fun c hc => ?_⟩
  have hcases : c = '.' ∨ c ∈ n ∨ c = '?' := by
    rcases List.mem_append.1 hc with hc | hc
    · rcases List.mem_append.1 hc with hc | hc
      · refine .inl ?_
        cases isRest <;> simp at hc
        exact hc
      · exact .inr (.inl hc)
    · refine .inr (.inr ?_)
      cases isOptional <;> simp at hc
      exact hc
  rcases hcases with rfl | hc | rfl
  · decide
  · exact h.chars c hc
  · decide

theorem wellNested (h : IsBinding n) : all.WellNested n := by
  cases h with
  | name isRest isOptional hn =>
    exact wellNested_of_not_bracket fun c hc => ((isPlainName isRest isOptional hn).chars c hc).2.1
  | object hs => exact hs.group (by decide) (by decide) (fun prev => by simp [closesHere, isArrowHead]; decide) rfl
  | array hs => exact hs.group (by decide) (by decide) (fun prev => by simp [closesHere, isArrowHead]; decide) rfl

/-- The signs at which a parameter is cut are inside the brackets of a pattern. -/
theorem encloses (h : IsBinding n) {x : Char} (hx : x ∈ [',', ':', '=']) : all.Encloses x n := by
  have hsigns : ∀ y ∈ [',', ':', '='], y ≠ '{' ∧ y ≠ '[' ∧ y ∈ [',', ':', '=', '*', '/'] :=
    forall_mem_of_all (by decide)
  have hother := hsigns x hx
  cases h with
  | name isRest isOptional hn =>
    exact .of_not_mem ((isPlainName isRest isOptional hn).not_mem hother.2.2)
  | object hs => exact .group (by decide) hother.1 hs _
  | array hs => exact .group (by decide) hother.2.1 hs _

theorem trimmed (h : IsBinding n) : n ≠ [] ∧ trim n = n := by
  cases h with
  | name isRest isOptional hn =>
    have hplain := isPlainName isRest isOptional hn
    exact ⟨hplain.ne_nil, trim_of_solid hplain.solid⟩
  | object hs => exact ⟨by simp, trim_around (s := ['{']) (t := ['}']) (by simp) (by decide) (by simp) (by decide) _⟩
  | array hs => exact ⟨by simp, trim_around (s := ['[']) (t := [']']) (by simp) (by decide) (by simp) (by decide) _⟩

/-- No modifier is read off a binding: it has no blank, or a bracket in front. -/
theorem skipKeywords_eq (h : IsBinding n) : skipKeywords parameterModifiers n = n := by
  have hwords : ∀ w ∈ parameterModifiers, w.toList ≠ [] ∧ w.toList.head? ≠ some '{' ∧
      w.toList.head? ≠ some '[' := by decide
  cases h with
  | name isRest isOptional hn => exact skipKeywords_of_solid (isPlainName isRest isOptional hn).solid
  | object hs =>
    exact skipKeywords_of_none fun w hw => keyword?_eq_none (hwords w hw).1 (hwords w hw).2.1
  | array hs =>
    exact skipKeywords_of_none fun w hw => keyword?_eq_none (hwords w hw).1 (hwords w hw).2.2

end IsBinding

/-! ## The parts of a parameter -/

theorem solid_parameterModifiers :
    ∀ m ∈ parameterModifiers, m.toList ≠ [] ∧ ∀ c ∈ m.toList, isBlank c = false :=
  solid_words (by decide)

/-- Modifiers have no brackets and none of the signs at which a parameter is cut. -/
theorem plain_spaced {ms : List String} (h : ∀ m ∈ ms, m ∈ parameterModifiers) :
    ∀ c ∈ spaced ms, isTypeBracket c = false ∧ c ∉ [',', ':', '='] := by
  have hchars : ∀ m ∈ parameterModifiers, ∀ c ∈ m.toList,
      isTypeBracket c = false ∧ c ∉ [',', ':', '='] :=
    fun m hm => forall_mem_of_all (by revert m; decide)
  intro c hc
  obtain ⟨m, hm, hcm⟩ := List.mem_flatMap.1 hc
  rcases List.mem_append.1 hcm with hcm | hcm
  · exact hchars m (h m hm) c hcm
  · obtain rfl : c = ' ' := List.mem_singleton.1 hcm
    decide

namespace Annotated.WellFormed

variable {p : Annotated}

theorem front_wellNested (h : p.WellFormed) : all.WellNested p.front :=
  (wellNested_of_not_bracket fun c hc => (plain_spaced h.modifiers c hc).1).append h.binding.wellNested

theorem front_encloses (h : p.WellFormed) {x : Char} (hx : x ∈ [',', ':', '=']) :
    all.Encloses x p.front := by
  have hplain := plain_spaced h.modifiers
  refine .append (wellNested_of_not_bracket fun c hc => (hplain c hc).1) h.binding.wellNested
    (.of_not_mem fun hmem => (hplain x hmem).2 hx) (h.binding.encloses hx)

theorem notBefore_binding (h : p.WellFormed) : notBefore isBlank p.binding = true := by
  rw [notBefore, (trim_eq_self_iff.1 h.binding.trimmed.2).1]
  rfl

/-- The modifiers are skipped, and nothing of the binding is. -/
theorem skipKeywords_front (h : p.WellFormed) : skipKeywords parameterModifiers p.front = p.binding :=
  skipKeywords_spaced solid_parameterModifiers h.modifiers h.notBefore_binding h.binding.skipKeywords_eq

theorem front_trimmed (h : p.WellFormed) : p.front ≠ [] ∧ trim p.front = p.front := by
  obtain ⟨hne, htrim⟩ := h.binding.trimmed
  have hstart := notBefore_spaced (fun m hm => solid_parameterModifiers m (h.modifiers m hm))
    h.notBefore_binding
  have hhead : p.front.head?.any isBlank = false := by rwa [notBefore, Bool.not_eq_true'] at hstart
  refine ⟨List.append_ne_nil_of_right_ne_nil _ hne, ?_⟩
  rw [trim, trimStart_eq_self hhead]
  exact trimEnd_append_of_trim hne htrim _

theorem bare_wellNested (h : p.WellFormed) : all.WellNested p.bare := by
  refine h.front_wellNested.append ?_
  cases htype : p.type with
  | none => exact .nil
  | some t => exact (wellNested_of_not_bracket (s := ": ".toList) (forall_mem_of_all (by decide))).append (h.type t htype).1.nested

theorem bare_encloses (h : p.WellFormed) {x : Char} (hx : x ∈ [',', '='])
    (htype : ∀ t ∈ p.type, all.Encloses x t) : all.Encloses x p.bare := by
  have hsigns : ∀ y ∈ [',', '='], y ∈ [',', ':', '='] ∧ y ∉ ": ".toList := forall_mem_of_all (by decide)
  obtain ⟨hsign, hnot⟩ := hsigns x hx
  have hcolon : all.WellNested ": ".toList := wellNested_of_not_bracket (forall_mem_of_all (by decide))
  rw [bare]
  cases ht : p.type with
  | none => simpa using h.front_encloses hsign
  | some t =>
    have hnested := (h.type t ht).1.nested
    exact .append h.front_wellNested (hcolon.append hnested) (h.front_encloses hsign)
      (.append hcolon hnested (.of_not_mem hnot) (htype t ht))

theorem bare_trimmed (h : p.WellFormed) : p.bare ≠ [] ∧ trim p.bare = p.bare := by
  obtain ⟨hne, htrim⟩ := h.front_trimmed
  rw [bare]
  cases ht : p.type with
  | none => simpa using And.intro hne htrim
  | some t =>
    have htype := (h.type t ht).1
    exact ⟨List.append_ne_nil_of_left_ne_nil hne _, trim_around hne htrim htype.ne_nil htype.trimmed _⟩

/-- Without an arrow in it a parameter has no equals sign in front of its default. -/
theorem bare_topFree (h : p.WellFormed) (harrow : ¬ fatArrow <:+: p.text) : all.TopFree '=' p.bare := by
  refine h.bare_wellNested.topFree (h.bare_encloses (by decide) fun t ht => ?_)
  rintro a r hcut hnested
  have hhead := (h.type t ht).2 a r hcut hnested
  obtain ⟨u, rfl⟩ := List.head?_eq_some_iff.1 hhead
  have hbare : t <:+: p.bare := by
    rw [bare, ht]
    exact ⟨p.front ++ ": ".toList, [], by simp⟩
  have hpair : fatArrow <:+: t := ⟨a, u, by rw [hcut]; simp [fatArrow]⟩
  exact harrow (hpair.trans (hbare.trans ⟨[], _, rfl⟩))

/-! ## One parameter -/

/-- The default is what is cut off, if the parameter has one. -/
theorem cutTop_text (h : p.WellFormed) :
    (if holds "=>".toList p.text then p.text else all.cutTop '=' p.text) = p.bare := by
  cases hd : p.default with
  | none =>
    have htext : p.text = p.bare := by simp [text, hd]
    split
    · exact htext
    · next hholds =>
      have harrow : ¬ fatArrow <:+: p.text := holds_eq_false_iff.1 (Bool.eq_false_iff.2 hholds)
      rw [htext, cutTop, (h.bare_topFree harrow).breakTop?_eq_none]
  | some d =>
    have harrow : ¬ fatArrow <:+: p.text := h.arrow (by simp [hd])
    have hholds : holds "=>".toList p.text = false := holds_eq_false_iff.2 harrow
    have htext : p.text = (p.bare ++ [' ']) ++ '=' :: (' ' :: d) := by simp [text, hd]
    have hfree : all.TopFree '=' (p.bare ++ [' ']) := (h.bare_topFree harrow).append (.of_all (by decide))
    rw [hholds, if_neg Bool.false_ne_true, htext, cutTop, hfree.breakTop?_append]
    exact (trim_concat_of_blank isBlank_space p.bare).trans h.bare_trimmed.2

/-- A parameter is read back from what is written. -/
theorem parameter?_text (h : p.WellFormed) : parameter? p.text = some p.parameter := by
  obtain ⟨hne, htrim⟩ := h.front_trimmed
  have hfree : all.TopFree ':' p.front := h.front_wellNested.topFree (h.front_encloses (by decide))
  have hname := nonempty?_of_ne_nil h.binding.trimmed.1
  unfold parameter?
  simp only [h.cutTop_text]
  cases ht : p.type with
  | none =>
    have hbare : p.bare = p.front := by simp [bare, ht]
    rw [hbare, hfree.breakTop?_eq_none]
    simp only [h.skipKeywords_front, hname]
    simp [parameter, ht]
  | some t =>
    have htype := (h.type t ht).1
    have hbare : p.bare = p.front ++ ':' :: (' ' :: t) := by simp [bare, ht]
    rw [hbare, hfree.breakTop?_append]
    simp only [htrim, h.skipKeywords_front, hname, trim_cons_of_blank isBlank_space, htype.trimmed,
      nonempty?_of_ne_nil htype.ne_nil]
    simp [parameter, ht]

/-! ## Lists -/

theorem text_wellNested (h : p.WellFormed) : all.WellNested p.text := by
  refine h.bare_wellNested.append ?_
  cases hd : p.default with
  | none => exact .nil
  | some d => exact (wellNested_of_not_bracket (s := " = ".toList) (forall_mem_of_all (by decide))).append (h.default d hd).nested

theorem isPiece_text (h : p.WellFormed) : all.IsPiece p.text := by
  have hcommas := h.bare_encloses (x := ',') (by decide) fun t ht => (h.type t ht).1.commas
  obtain ⟨hne, htrim⟩ := h.bare_trimmed
  rw [text]
  cases hd : p.default with
  | none => simpa using h.bare_wellNested.isPiece usual_all hcommas hne htrim
  | some d =>
    have hdefault := h.default d hd
    have hsign : all.WellNested " = ".toList := wellNested_of_not_bracket (forall_mem_of_all (by decide))
    refine (h.bare_wellNested.append (hsign.append hdefault.nested)).isPiece usual_all ?_
      (List.append_ne_nil_of_left_ne_nil hne _) (trim_around hne htrim hdefault.ne_nil hdefault.trimmed _)
    exact .append h.bare_wellNested (hsign.append hdefault.nested) hcommas
      (.append hsign hdefault.nested (.of_not_mem (by decide)) hdefault.commas)

end Annotated.WellFormed

/-- A parameter list is read back from what is written: every parameter with its name and its type, in
    order. -/
theorem parameters_annotated {ps : List Annotated} (h : ∀ p ∈ ps, p.WellFormed) :
    parameters (join ", " (ps.map Annotated.text)) = ps.map Annotated.parameter := by
  have hrow : all.Row (ps.map Annotated.text) := by
    constructor
    · intro q hq
      obtain ⟨p, hp, rfl⟩ := List.mem_map.1 hq
      exact (h p hp).isPiece_text
    · intro q hq
      obtain ⟨p, hp, rfl⟩ := List.mem_map.1 (List.dropLast_subset _ hq)
      exact (h p hp).text_wellNested.openAfter [] none
  have hread : ∀ p ∈ ps, (parameter? ∘ Annotated.text) p = (some ∘ Annotated.parameter) p :=
    fun p hp => (h p hp).parameter?_text
  rw [parameters, pieces_join usual_all hrow, List.filterMap_map, List.filterMap_congr hread,
    List.filterMap_eq_map]

/-- A promoted property with a function type, a pattern with generics, a tuple with a default that holds a
    comma and an equals sign, and a rest parameter. -/
def handlerParameters : List Annotated :=
  [⟨["private", "readonly"], "on?".toList, some "(e: E, n: N) => P<void>".toList, none⟩,
    ⟨[], "\x7bid, k: [a, b]\x7d".toList, some "Map<K, (v: V) => T>".toList, none⟩,
    ⟨["override"], "[x, y]".toList, some "[A, B]".toList, some "[f(1, 2), z = 3]".toList⟩,
    ⟨[], "...rest".toList, none, none⟩]

theorem handlerParameters_wellFormed : ∀ p ∈ handlerParameters, p.WellFormed := by
  have hname {n : Text} (hne : n ≠ []) (hn : n.all (fun c => decide (isBlank c = false ∧
      isTypeBracket c = false ∧ c ∉ [',', ':', '=', '*', '/'])) = true) : IsPlainName n :=
    ⟨hne, forall_mem_of_all hn⟩
  have htype {t : Text} (hoperand : t ≠ [] ∧ trim t = t ∧ all.WellNested t ∧ all.Encloses ',' t)
      (harrows : OnlyArrows t) : ∀ u ∈ some t, IsOperand u ∧ OnlyArrows u := by
    rintro u ⟨⟩
    exact ⟨⟨hoperand.1, hoperand.2.1, hoperand.2.2.1, hoperand.2.2.2⟩, harrows⟩
  simp only [handlerParameters, List.forall_mem_cons, List.not_mem_nil, false_implies, implies_true, and_true]
  refine ⟨⟨by decide, ?_, htype (by decide) (by decide), nofun, nofun⟩,
    ⟨by decide, ?_, htype (by decide) (by decide), nofun, nofun⟩,
    ⟨by decide, ?_, htype (by decide) (by decide), ?_, fun _ => holds_eq_false_iff.1 (by decide)⟩,
    ⟨by decide, ?_, nofun, nofun, nofun⟩⟩
  · exact .name (n := "on".toList) false true (hname (by decide) (by decide))
  · exact .object (s := "id, k: [a, b]".toList) (by decide)
  · exact .array (s := "x, y".toList) (by decide)
  · rintro d ⟨⟩
    exact ⟨by decide, by decide, by decide, by decide⟩
  · exact .name (n := "rest".toList) true false (hname (by decide) (by decide))

theorem parameters_annotated_handlerParameters :
    parameters ("private readonly on?: (e: E, n: N) => P<void>, ".toList ++
      "\x7bid, k: [a, b]\x7d: Map<K, (v: V) => T>, ".toList ++
      "override [x, y]: [A, B] = [f(1, 2), z = 3], ...rest".toList) =
    [{ name := "on?".toList, type := some "(e: E, n: N) => P<void>".toList },
      { name := "\x7bid, k: [a, b]\x7d".toList, type := some "Map<K, (v: V) => T>".toList },
      { name := "[x, y]".toList, type := some "[A, B]".toList },
      { name := "...rest".toList }] :=
  parameters_annotated handlerParameters_wellFormed

end Synopsis.Script
