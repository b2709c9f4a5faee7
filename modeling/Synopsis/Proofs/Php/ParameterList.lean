import Synopsis.Proofs.Nesting.Nested
import Synopsis.Proofs.StringDefault
import Synopsis.Proofs.Text.Word

/-!
# PHP: parameter lists as they are written

A parameter is named by its variable, and nearly everything else about it is written in front: an attribute,
modifiers, a type, the sign of a reference and the dots of a parameter that takes the rest. Attributes are
removed from the list as a whole, before it is split (`stripAttributes_join`). The default value goes with
the equals sign, and the type is what is left of the text before the variable when the signs and modifiers
are deleted from it (`parameterType_lead`). So every parameter comes back with its name and its type
(`parameters_variables`).
-/

namespace Synopsis.Php

open Text Brackets

/-! ## Parameters as they are written -/

/-- The words that make a parameter a property. -/
def promotionWords : List String := ["public", "protected", "private", "readonly"]

/-- The sign of a parameter that takes the rest. -/
def dots : Text := "...".toList

/-- A parameter as it is written: `#[attributes] modifiers type &...$name = default`. -/
structure Variable where
  attributes : Option Text
  modifiers : List String
  type : Option Text
  isReference : Bool
  isVariadic : Bool
  name : Text
  default : Option Text
deriving DecidableEq, Repr

namespace Variable

/-- The modifiers and the type, with a space behind each. -/
def front (v : Variable) : Text := spaced v.modifiers ++ v.type.elim [] (· ++ [' '])

/-- What stands between the attribute and the variable. -/
def lead (v : Variable) : Text :=
  v.front ++ ((if v.isReference then ['&'] else []) ++ if v.isVariadic then dots else [])

/-- The parameter without its attribute and its default. -/
def bare (v : Variable) : Text := v.lead ++ '$' :: v.name

/-- The parameter without its attribute. -/
def body (v : Variable) : Text := v.bare ++ v.default.elim [] (" = ".toList ++ ·)

def text (v : Variable) : Text :=
  v.attributes.elim [] (fun a => attributeMark ++ (a ++ ']' :: [' '])) ++ v.body

/-- The parameter when its attribute is removed: the space behind it stays. -/
def stripped (v : Variable) : Text := v.attributes.elim [] (fun _ => [' ']) ++ v.body

/-- What the parameter declares. -/
def parameter (v : Variable) : Parameter where
  name := v.name
  type := if v.isVariadic then some (dots ++ v.type.getD []) else v.type

end Variable

/-- A type without brackets, modifiers and the signs that stand between the parts of a parameter. -/
structure IsPlainType (t : Text) : Prop where
  ne_nil : t ≠ []
  trimmed : trim t = t
  chars : ∀ c ∈ t, isBracket c = false ∧ c ∉ ['$', '&', '=', '#', ',']
  dotless : ¬ dots <:+: t
  words : ∀ w ∈ promotionWords, ¬ HasWord w t

/-- A parameter whose parts can be told apart. -/
structure Variable.WellFormed (v : Variable) : Prop where
  attributes : ∀ a ∈ v.attributes, depthAfter '[' ']' 1 a = some 1
  modifiers : ∀ m ∈ v.modifiers, m ∈ promotionWords
  type : ∀ t ∈ v.type, IsPlainType t
  name : isName v.name = true
  default : ∀ d ∈ v.default, Nested false d ∧ ¬ attributeMark <:+: d

/-! ## Characters -/

theorem isWordRun_promotionWords : ∀ w ∈ promotionWords, IsWordRun w.toList := by
  unfold IsWordRun
  decide

theorem solid_promotionWords :
    ∀ w ∈ promotionWords, w.toList ≠ [] ∧ ∀ c ∈ w.toList, isBlank c = false :=
  solid_words (by decide)

/-- The signs and brackets at which a parameter is taken apart are in no word. -/
theorem plain_of_isWord {c : Char} (h : isWord c = true) :
    isBracket c = false ∧ c ∉ ['$', '&', '=', '#', ','] := by
  refine ⟨isBracket_of_isWord h, fun hmem => ?_⟩
  have hsigns : ∀ x ∈ ['$', '&', '=', '#', ','], isWord x = false := forall_mem_of_all (by decide)
  rw [hsigns c hmem] at h
  cases h

theorem spaced_chars {ms : List String} (h : ∀ m ∈ ms, m ∈ promotionWords) :
    ∀ c ∈ spaced ms, (isBracket c = false ∧ c ∉ ['$', '&', '=', '#', ',']) ∧ c ≠ '.' := by
  intro c hc
  obtain ⟨m, hm, hcm⟩ := List.mem_flatMap.1 hc
  rcases List.mem_append.1 hcm with hcm | hcm
  · have hword : isWord c = true := List.all_eq_true.1 (isWordRun_promotionWords m (h m hm)).2 c hcm
    refine ⟨plain_of_isWord hword, ?_⟩
    rintro rfl
    cases hword
  · obtain rfl : c = ' ' := List.mem_singleton.1 hcm
    decide

namespace Variable.WellFormed

variable {v : Variable}

theorem front_chars (h : v.WellFormed) :
    ∀ c ∈ v.front, isBracket c = false ∧ c ∉ ['$', '&', '=', '#', ','] := by
  intro c hc
  rcases List.mem_append.1 hc with hc | hc
  · exact (spaced_chars h.modifiers c hc).1
  · cases ht : v.type with
    | none =>
      rw [ht] at hc
      cases hc
    | some t =>
      rw [ht] at hc
      rcases List.mem_append.1 hc with hc | hc
      · exact (h.type t ht).chars c hc
      · obtain rfl : c = ' ' := List.mem_singleton.1 hc
        decide

theorem lead_chars (h : v.WellFormed) :
    ∀ c ∈ v.lead, isBracket c = false ∧ c ∉ ['$', '=', '#', ','] := by
  intro c hc
  have hcases : c ∈ v.front ∨ c = '&' ∨ c = '.' := by
    rcases List.mem_append.1 hc with hc | hc
    · exact .inl hc
    · refine .inr ?_
      rcases List.mem_append.1 hc with hc | hc
      · split at hc <;> simp_all
      · split at hc <;> simp_all [dots]
  rcases hcases with hc | rfl | rfl
  · have hplain := h.front_chars c hc
    have hsigns : ['$', '=', '#', ','] ⊆ ['$', '&', '=', '#', ','] := by decide
    exact ⟨hplain.1, fun hmem => hplain.2 (hsigns hmem)⟩
  · decide
  · decide

theorem bare_chars (h : v.WellFormed) :
    ∀ c ∈ v.bare, isBracket c = false ∧ c ∉ ['=', '#', ','] := by
  intro c hc
  rcases List.mem_append.1 hc with hc | hc
  · have hplain := h.lead_chars c hc
    exact ⟨hplain.1, fun hmem => hplain.2 (List.mem_cons_of_mem _ hmem)⟩
  · rcases List.mem_cons.1 hc with rfl | hc
    · decide
    · have hplain := plain_of_isWord (List.all_eq_true.1 (all_isWord_of_isName h.name) c hc)
      have hsigns : ['=', '#', ','] ⊆ ['$', '&', '=', '#', ','] := by decide
      exact ⟨hplain.1, fun hmem => hplain.2 (hsigns hmem)⟩

end Variable.WellFormed

/-! ## Attributes -/

/-- The mark of an attribute is found behind a text without one. -/
theorem cut?_attributeMark {a : Text} (ha : ¬ attributeMark <:+: a) (t : Text) :
    cut? attributeMark (a ++ (attributeMark ++ t)) = some (a, t) := by
  induction a with
  | nil => rfl
  | cons c a ih =>
    have hrest : ¬ attributeMark <:+: a := fun hmark => ha (hmark.trans (List.suffix_cons c a).isInfix)
    have hnone : after? attributeMark (c :: (a ++ (attributeMark ++ t))) = none := by
      cases hafter : after? attributeMark (c :: (a ++ (attributeMark ++ t))) with
      | none => rfl
      | some r =>
        -- The text would begin with the mark, or its last character be the bracket of one.
        have heq := after?_eq_some.1 hafter
        obtain ⟨rfl, htail⟩ := List.cons.inj heq
        cases a with
        | nil => cases htail
        | cons x a =>
          obtain ⟨rfl, -⟩ := List.cons.inj htail
          exact absurd ⟨[], a, rfl⟩ ha
    rw [List.cons_append, cut?, hnone, ih hrest]
    rfl

theorem clean_append {a t : Text} (ha : '#' ∉ a) (ht : ¬ attributeMark <:+: t) :
    ¬ attributeMark <:+: a ++ t := by
  rw [← cut?_eq_none_iff] at ht ⊢
  rw [cut?_append_left (c := '#') rfl ha, ht]
  rfl

namespace Variable.WellFormed

variable {v : Variable}

/-- No attribute begins in a parameter when its own is removed. -/
theorem clean_stripped (h : v.WellFormed) : ¬ attributeMark <:+: v.stripped := by
  have hgap : '#' ∉ v.attributes.elim [] (fun _ => [' ']) := by
    cases v.attributes <;> simp
  have hbare : '#' ∉ v.bare := fun hmem => (h.bare_chars '#' hmem).2 (by decide)
  refine clean_append hgap ?_
  rw [body]
  refine clean_append hbare ?_
  cases hd : v.default with
  | none => exact fun hmark => absurd hmark.length_le (by decide)
  | some d => exact clean_append (a := " = ".toList) (by decide) (h.default d hd).2

/-- The attributes of a parameter behind a text without any are removed from the list. -/
theorem stripAttributes_text (h : v.WellFormed) {a : Text} (ha : ¬ attributeMark <:+: a) (t : Text) :
    stripAttributes (a ++ (v.text ++ t)) = stripAttributes (a ++ (v.stripped ++ t)) := by
  rw [text, stripped]
  cases hattributes : v.attributes with
  | none => rfl
  | some s =>
    have hcut := cut?_attributeMark ha (s ++ ']' :: ' ' :: (v.body ++ t))
    have hstrip := stripAttributes_of_ended hcut (h.attributes s hattributes)
    simpa using hstrip

end Variable.WellFormed

/-- All attributes of a list are removed, and nothing else of it. -/
theorem stripAttributes_join {vs : List Variable} (h : ∀ v ∈ vs, v.WellFormed) {a : Text}
    (ha : ¬ attributeMark <:+: a) (hlast : a.getLast? ≠ some '#') :
    stripAttributes (a ++ join ", " (vs.map Variable.text)) =
      a ++ join ", " (vs.map Variable.stripped) := by
  -- What precedes the list is part of the invariant: a removal is followed by a search from the start.
  induction vs generalizing a with
  | nil => exact stripAttributes_of_none (cut?_eq_none_iff.2 (by simpa [join] using ha))
  | cons v vs ih =>
    have hv := h v List.mem_cons_self
    have hclean : ¬ attributeMark <:+: a ++ v.stripped := by
      intro hmark
      rcases pair_infix_append_iff.1 hmark with hmark | hmark | ⟨hseam, -⟩
      · exact ha hmark
      · exact hv.clean_stripped hmark
      · exact hlast hseam
    cases vs with
    | nil =>
      have hstrip := hv.stripAttributes_text ha []
      rw [List.append_nil, List.append_nil] at hstrip
      rw [List.map_singleton, List.map_singleton, join_singleton, join_singleton, hstrip,
        stripAttributes_of_none (cut?_eq_none_iff.2 hclean)]
    | cons w vs =>
      have hnext : ¬ attributeMark <:+: a ++ v.stripped ++ ", ".toList := by
        intro hmark
        rcases pair_infix_append_iff.1 hmark with hmark | hmark | ⟨-, hseam⟩
        · exact hclean hmark
        · exact absurd (hmark.subset (show '#' ∈ attributeMark by decide)) (by decide)
        · cases hseam
      have hrest := ih (fun u hu => h u (List.mem_cons_of_mem v hu)) hnext (by simp)
      simp only [List.map_cons, join_cons_cons] at hrest ⊢
      rw [hv.stripAttributes_text ha]
      simpa using hrest

/-! ## Types -/

theorem withoutDots_sublist (t : Text) : (withoutDots t).Sublist t := by
  fun_induction withoutDots t with
  | case1 => exact List.Sublist.refl []
  | case2 cs ih => exact ((ih.cons _).cons _).cons _
  | case3 c cs h ih => exact ih.cons_cons c

theorem withoutDots_of_not_dots {t : Text} (h : ¬ dots <:+: t) : withoutDots t = t := by
  fun_induction withoutDots t with
  | case1 => rfl
  | case2 t ih => exact absurd ⟨[], t, rfl⟩ h
  | case3 c t hdots ih => rw [ih fun hrest => h (hrest.trans (List.suffix_cons c t).isInfix)]

theorem withoutDots_append_cons {c : Char} (hc : c ≠ '.') (s t : Text) :
    withoutDots (s ++ c :: t) = withoutDots s ++ c :: withoutDots t := by
  fun_induction withoutDots s with
  | case1 => rw [List.nil_append, List.nil_append, withoutDots]; simp [hc]
  | case2 s ih => rw [← ih]; rfl
  | case3 x s hdots ih =>
    rw [List.cons_append, withoutDots, ih]
    · rfl
    · -- Three dots here would end before the character, or hold it.
      intro u hx hs
      cases s with
      | nil => exact hc (List.cons.inj hs).1
      | cons y s =>
        obtain ⟨hy, hs⟩ := List.cons.inj hs
        cases s with
        | nil => exact hc (List.cons.inj hs).1
        | cons z s => exact hdots s hx (by rw [hy, (List.cons.inj hs).1])

theorem Variable.front_cases (v : Variable) : v.front = [] ∨ ∃ u, v.front = u ++ [' '] := by
  rw [Variable.front]
  cases v.type with
  | none => simpa using spaced_cases v.modifiers
  | some t => exact .inr ⟨spaced v.modifiers ++ t, by simp⟩

namespace Variable.WellFormed

variable {v : Variable}

theorem dotless_front (h : v.WellFormed) : ¬ dots <:+: v.front := by
  have hwords : '.' ∉ spaced v.modifiers := fun hmem => (spaced_chars h.modifiers '.' hmem).2 rfl
  have htype : cut? dots (v.type.elim [] (· ++ [' '])) = none := by
    rw [cut?_eq_none_iff]
    cases ht : v.type with
    | none => exact fun hdots => absurd hdots.length_le (by decide)
    | some t =>
      intro hdots
      rcases infix_of_append_cons (c := ' ') (by decide) hdots with hdots | hdots
      · exact (h.type t ht).dotless hdots
      · exact absurd hdots.length_le (by decide)
  rw [front, ← cut?_eq_none_iff, cut?_append_left (c := '.') rfl hwords, htype]
  rfl

/-- The dots of a parameter that takes the rest are all that is deleted with three dots. -/
theorem withoutDots_front (h : v.WellFormed) {t : Text} (ht : t = dots ∨ t = []) :
    withoutDots (v.front ++ t) = v.front := by
  have hrest : withoutDots t = [] := by rcases ht with rfl | rfl <;> decide
  have hself := withoutDots_of_not_dots h.dotless_front
  rcases v.front_cases with hnil | ⟨u, hu⟩
  · rw [hnil, List.nil_append, hrest]
  · rw [hu] at hself ⊢
    rw [withoutDots_append_cons (by decide)] at hself
    rw [List.append_assoc, List.singleton_append, withoutDots_append_cons (by decide), hrest]
    exact hself

theorem holds_dots_lead (h : v.WellFormed) : holds dots v.lead = v.isVariadic := by
  cases hv : v.isVariadic with
  | true =>
    refine eq_true_of_ne_false fun hholds => holds_eq_false_iff.1 hholds ?_
    rw [lead, hv, ← List.append_assoc]
    exact (List.suffix_append _ dots).isInfix
  | false =>
    refine holds_eq_false_iff.2 fun hdots => ?_
    rw [lead, hv] at hdots
    split at hdots
    · rcases infix_of_append_cons (c := '&') (by decide) hdots with hdots | hdots
      · exact h.dotless_front hdots
      · exact absurd hdots.length_le (by decide)
    · exact h.dotless_front (by simpa using hdots)

theorem without_lead (h : v.WellFormed) :
    without '&' v.lead = v.front ++ if v.isVariadic then dots else [] := by
  have hfront : v.front.filter (· ≠ '&') = v.front := by
    refine List.filter_eq_self.2 fun c hc => decide_eq_true ?_
    rintro rfl
    exact (h.front_chars '&' hc).2 (by decide)
  rw [without, lead, List.filter_append, hfront]
  cases v.isReference <;> cases v.isVariadic <;> rfl

end Variable.WellFormed

theorem Variable.blank_stripped (v : Variable) : blank v.stripped = false := by
  refine Bool.eq_false_iff.2 fun hblank => not_mem_of_all hblank (x := '$') (by decide) ?_
  simp [Variable.stripped, Variable.body, Variable.bare]

/-- No modifier is found in a type. -/
theorem promotionAt?_eq_none {t : Text} (h : IsPlainType t) {prev : Option Char} {k : Nat} {a b : Text}
    (hcut : t ++ [' '] = a ++ b) : promotionAt? ⟨a.getLast?.or prev, k, b⟩ = none := by
  cases hread : promotionAt? ⟨a.getLast?.or prev, k, b⟩ with
  | none => rfl
  | some rest =>
    unfold promotionAt? at hread
    split at hread
    · next hstart =>
      obtain ⟨w, hw, hkeyword⟩ := List.exists_of_findSome?_eq_some hread
      obtain ⟨r, hafter, hblank⟩ := exists_after?_of_keyword? hkeyword
      have ha : notAfter isWord a.getLast? = true := by
        cases hlast : a.getLast? with
        | none => rfl
        | some x => rwa [hlast] at hstart
      have hstands : HasKeyword w (t ++ [' ']) := by
        rw [hcut]
        exact stands_of_after? ha hafter hblank
      have hword := hstands.hasWord.of_append_cons (isWordRun_promotionWords w hw) (by decide)
      rcases hword with hword | hword
      · exact absurd hword (h.words w hw)
      · exact absurd (hword.eq_of_all rfl).symm (isWordRun_promotionWords w hw).1
    · cases hread

/-- Modifiers in a row are all deleted, up to a text that has none. -/
theorem replaceFrom_spaced {ms : List String} (hms : ∀ m ∈ ms, m ∈ promotionWords) {t : Text}
    (hhead : notBefore isBlank t = true)
    (ht : ∀ prev k, replaceFrom promotionAt? [] 0 prev k t = t) {prev : Option Char}
    (hprev : notAfter isWord prev = true) (k : Nat) :
    replaceFrom promotionAt? [] 0 prev k (spaced ms ++ t) = t := by
  induction ms generalizing prev k with
  | nil => exact ht prev k
  | cons m ms ih =>
    have hrest : ∀ v ∈ ms, v ∈ promotionWords := fun v hv => hms v (List.mem_cons_of_mem m hv)
    have hfound := findSome?_keyword? (fun v hv => (solid_promotionWords v hv).2) (hms m List.mem_cons_self)
      (notBefore_spaced (fun v hv => solid_promotionWords v (hrest v hv)) hhead)
    have hwritten : spaced (m :: ms) ++ t = (m.toList ++ [' ']) ++ (spaced ms ++ t) := by
      rw [spaced_cons, List.append_cons]
    have hread : promotionAt? ⟨prev, k, (m.toList ++ [' ']) ++ (spaced ms ++ t)⟩ = some (spaced ms ++ t) := by
      rw [promotionAt?, Place.isWordStart, if_pos hprev, List.append_assoc]
      exact hfound
    rw [hwritten, replaceFrom_of_read [] (by simp) hread, List.nil_append, ih hrest (by simp [notAfter]; decide)]

namespace Variable.WellFormed

variable {v : Variable}

theorem notBefore_type (h : v.WellFormed) {t : Text} (ht : v.type = some t) (u : Text) :
    notBefore isBlank (t ++ u) = true := by
  have hhead := (trim_eq_self_iff.1 (h.type t ht).trimmed).1
  rw [head?_of_isPrefix (List.prefix_append t u) (h.type t ht).ne_nil] at hhead
  rw [notBefore, hhead, Bool.not_false]

/-- The modifiers are deleted, and nothing of the type is. -/
theorem replaceAll_front (h : v.WellFormed) :
    replaceAll promotionAt? [] v.front = v.type.elim [] (· ++ [' ']) := by
  refine replaceFrom_spaced h.modifiers ?_ (fun prev k => ?_) rfl 0
  · cases ht : v.type with
    | none => rfl
    | some t => exact h.notBefore_type ht [' ']
  · cases ht : v.type with
    | none => rw [Option.elim_none, replaceFrom]
    | some t => exact replaceFrom_eq_self [] fun a b hcut => promotionAt?_eq_none (h.type t ht) hcut

/-- The text before a variable gives back its type, and dots for the rest. -/
theorem parameterType_lead (h : v.WellFormed) : parameterType v.lead = v.parameter.type := by
  have htype : nonempty? (trim (v.type.elim [] (· ++ [' ']))) = v.type := by
    cases ht : v.type with
    | none => rfl
    | some t =>
      have htype := h.type t ht
      rw [Option.elim_some, trim_concat_of_blank isBlank_space, htype.trimmed, nonempty?_of_ne_nil htype.ne_nil]
  have hdots : withoutDots (v.front ++ if v.isVariadic then dots else []) = v.front := by
    refine h.withoutDots_front ?_
    cases v.isVariadic <;> simp
  have hholds : holds "...".toList v.lead = v.isVariadic := h.holds_dots_lead
  rw [parameterType]
  simp only [h.without_lead, hdots, h.replaceAll_front, htype, hholds]
  rfl

/-! ## Lists -/

theorem nested_stripped (h : v.WellFormed) : Nested false v.stripped := by
  have hplain {s : Text} (hs : s.all (fun c => !isBracket c && c != ',') = true) : Nested false s :=
    .of_all (by simp) hs
  have hbare : Nested false v.bare := hplain (List.all_eq_true.2 fun c hc => by
    have hc := h.bare_chars c hc
    simp only [List.mem_cons, not_or] at hc
    simp [hc.1, hc.2.2.2.1])
  have hdefault : Nested false (v.default.elim [] (" = ".toList ++ ·)) := by
    cases hd : v.default with
    | none => exact .nil
    | some d => exact (hplain (s := " = ".toList) (by decide)).append (h.default d hd).1
  have hgap : Nested false (v.attributes.elim [] fun _ => [' ']) := by
    cases v.attributes with
    | none => exact .nil
    | some a => exact hplain (s := [' ']) (by decide)
  exact hgap.append (hbare.append hdefault)

theorem head?_bare (h : v.WellFormed) : v.bare.head?.any isBlank = false := by
  have hrest : notBefore isBlank (v.type.elim [] (· ++ [' ']) ++
      ((if v.isReference then ['&'] else []) ++ (if v.isVariadic then dots else []) ++ '$' :: v.name)) = true := by
    cases ht : v.type with
    | none => cases v.isReference <;> cases v.isVariadic <;> rfl
    | some t =>
      rw [Option.elim_some, List.append_assoc]
      exact h.notBefore_type ht _
  have hbare := notBefore_spaced (fun m hm => solid_promotionWords m (h.modifiers m hm)) hrest
  rw [notBefore, Bool.not_eq_true'] at hbare
  rw [← hbare, bare, lead, front]
  simp only [List.append_assoc]

theorem trim_bare (h : v.WellFormed) : trim v.bare = v.bare := by
  rw [trim, trimStart_eq_self h.head?_bare, bare, List.append_cons]
  exact trimEnd_append_of_trim (isWordRun_of_isName h.name).1 (trim_of_isName h.name) _

/-- The default is what is cut off, if the parameter has one. -/
theorem cutTop_stripped (h : v.WellFormed) : noAngle.cutTop '=' (trim v.stripped) = v.bare := by
  have hgap : blank (v.attributes.elim [] fun _ => [' ']) = true := by
    cases v.attributes <;> rfl
  have hfree : noAngle.TopFree '=' v.bare := .of_all (List.all_eq_true.2 fun c hc => by
    obtain ⟨hbracket, hsigns⟩ := h.bare_chars c hc
    obtain ⟨hopens, hcloses⟩ := Bool.or_eq_false_iff.1 hbracket
    have hne : c ≠ '=' := fun he => hsigns (by simp [he])
    simp [hopens, hcloses, hne])
  rw [stripped, body]
  cases v.default with
  | none =>
    have htrim := trim_pad hgap (k := []) rfl v.bare
    rw [List.append_nil, h.trim_bare] at htrim
    rw [Option.elim_none, List.append_nil, htrim, cutTop, hfree.breakTop?_eq_none]
  | some d =>
    have hspace : noAngle.TopFree '=' (v.bare ++ [' ']) := hfree.append (.of_all (by decide))
    have hstart : trimStart (v.attributes.elim [] (fun _ => [' ']) ++ (v.bare ++ [' '])) = v.bare ++ [' '] := by
      have hne : v.bare ≠ [] := List.append_ne_nil_of_right_ne_nil v.lead (List.cons_ne_nil '$' v.name)
      have hhead := h.head?_bare
      rw [head?_of_isPrefix (List.prefix_append v.bare [' ']) hne] at hhead
      rw [trimStart_append_of_blank hgap, trimStart_eq_self hhead]
    have hwritten : v.attributes.elim [] (fun _ => [' ']) ++ (v.bare ++ (" = ".toList ++ d)) =
        (v.attributes.elim [] (fun _ => [' ']) ++ (v.bare ++ [' '])) ++ '=' :: (' ' :: d) := by simp
    rw [Option.elim_some, hwritten, trim_append_cons (by decide), hstart, cutTop, hspace.breakTop?_append]
    exact (trim_concat_of_blank isBlank_space v.bare).trans h.trim_bare

end Variable.WellFormed

/-- A parameter list is read back from what is written: every parameter with its name and its type, in
    order. -/
theorem parameters_variables {vs : List Variable} (h : ∀ v ∈ vs, v.WellFormed) :
    parameters (join ", " (vs.map Variable.text)) = vs.map Variable.parameter := by
  have hstrip := stripAttributes_join h (a := []) (fun hmark => absurd hmark.length_le (by decide)) nofun
  have hsolid : ∀ p ∈ vs.map Variable.stripped, noAngle.stretchesFrom [] none p = [p] ∧ blank p = false :=
    List.forall_mem_map.2 fun v hv => ⟨(h v hv).nested_stripped.solid, v.blank_stripped⟩
  have hclosed : ∀ p ∈ (vs.map Variable.stripped).dropLast, noAngle.openAfter [] none p = [] := by
    intro p hp
    obtain ⟨v, hv, rfl⟩ := List.mem_map.1 (List.dropLast_subset _ hp)
    exact (h v hv).nested_stripped.openAfter [] none
  have hpieces := pieces_join_solid usual_noAngle hsolid hclosed
  rw [List.nil_append, List.nil_append] at hstrip
  rw [parameters, hstrip, hpieces, List.map_map, List.map_map]
  refine List.map_congr_left fun v hv => ?_
  have hlead : '$' ∉ v.lead := fun hmem => ((h v hv).lead_chars '$' hmem).2 (by decide)
  rw [Function.comp_apply, Function.comp_apply, (h v hv).cutTop_stripped, Variable.bare,
    parameter_append hlead (h v hv).name, (h v hv).parameterType_lead]
  rfl

/-- A promoted property with an attribute that holds brackets, a parameter with an array as its default, and
    one that takes the rest by reference. -/
def routeParameters : List Variable :=
  [⟨some "Len([1, 2])".toList, ["private", "readonly"], some "?Foo".toList, false, false, "id".toList, none⟩,
    ⟨none, [], some "int | null".toList, true, false, "at".toList, some "[1, 2]".toList⟩,
    ⟨none, [], some "string".toList, true, true, "parts".toList, none⟩,
    ⟨none, ["public"], none, false, true, "rest".toList, none⟩]

theorem routeParameters_wellFormed : ∀ v ∈ routeParameters, v.WellFormed := by
  have htype {t : Text} (htext : t ≠ [] ∧ trim t = t ∧ holds dots t = false)
      (hchars : t.all (fun c => decide (isBracket c = false ∧ c ∉ ['$', '&', '=', '#', ','])) = true)
      (hwords : ∀ w ∈ promotionWords, ¬ HasWord w t) : ∀ u ∈ some t, IsPlainType u := by
    rintro u ⟨⟩
    exact ⟨htext.1, htext.2.1, forall_mem_of_all hchars, holds_eq_false_iff.1 htext.2.2, hwords⟩
  have hinside : Nested true "1, 2".toList :=
    .plain rfl (fun _ => rfl) (.plain rfl (fun _ => rfl) (.plain rfl (fun _ => rfl)
      (.plain rfl (fun _ => rfl) .nil)))
  simp only [routeParameters, List.forall_mem_cons, List.not_mem_nil, false_implies, implies_true, and_true]
  refine ⟨⟨?_, by decide, htype (by decide) (by decide) (by decide), by decide, nofun⟩,
    ⟨nofun, nofun, htype (by decide) (by decide) (by decide), by decide, ?_⟩,
    ⟨nofun, nofun, htype (by decide) (by decide) (by decide), by decide, nofun⟩,
    ⟨nofun, by decide, nofun, by decide, nofun⟩⟩
  · rintro a ⟨⟩
    decide
  · rintro d ⟨⟩
    exact ⟨.group (o := '[') (c := ']') (t := []) (by decide) hinside .nil, holds_eq_false_iff.1 (by decide)⟩

theorem parameters_variables_routeParameters :
    parameters ("#[Len([1, 2])] private readonly ?Foo $id, int | null &$at = [1, 2], ".toList ++
      "string &...$parts, public ...$rest".toList) =
    [{ name := "id".toList, type := some "?Foo".toList },
      { name := "at".toList, type := some "int | null".toList },
      { name := "parts".toList, type := some "...string".toList },
      { name := "rest".toList, type := some "...".toList }] :=
  parameters_variables routeParameters_wellFormed

end Synopsis.Php
