import Synopsis.Proofs.Java.Chunk
import Synopsis.Proofs.Scan.Site
import Synopsis.Proofs.Text.Word

/-!
# Java: what a header declares

The header of a type is one for its name (`typeName?_type`); the header of a method or constructor,
put together from its parts, is read back into them (`member?_method`, `member?_constructor`); the
header of a field declares nothing (`member?_assignment`, `member?_of_not_mem`).
-/

namespace Synopsis.Java

open Text

/-! ## Words -/

/-- A word stands in a text: neither before nor after it does a word character go on. -/
def HasWord (word : String) (t : Text) : Prop :=
  ∃ a b, t = a ++ (word.toList ++ b) ∧ notAfter isWord a.getLast? = true ∧ notBefore isWord b = true

theorem hasWord_iff {word : String} {t : Text} : HasWord word t ↔ Text.HasWord word t := Iff.rfl

instance (word : String) (t : Text) : Decidable (HasWord word t) := decidable_of_iff _ hasWord_iff.symm

/-- The words that open a type declaration. -/
def typeWords : List String := ["class", "interface", "enum", "record"]

theorem solid_of_typeWord : ∀ w ∈ typeWords, w.toList ≠ [] ∧ ∀ c ∈ w.toList, isBlank c = false :=
  solid_words (by decide)

theorem isWordRun_typeWords : ∀ w ∈ typeWords, IsWordRun w.toList := by
  unfold IsWordRun
  decide

section Word

variable {word : String} (hword : IsWordRun word.toList)

include hword

theorem hasWord_of_blank_append {g t : Text} (hg : blank g = true) (h : HasWord word (g ++ t)) :
    HasWord word t :=
  hasWord_iff.2 ((stands_blank_append hword hg).1 (hasWord_iff.1 h))

theorem hasWord_of_append_blank {g t : Text} (hg : blank g = true) (h : HasWord word (t ++ g)) :
    HasWord word t := by
  cases g with
  | nil => rwa [List.append_nil] at h
  | cons c g =>
    obtain ⟨hc, hg⟩ := Bool.and_eq_true_iff.1 hg
    rcases Text.HasWord.of_append_cons hword (isWord_of_blank hc) (hasWord_iff.1 h) with h | h
    · exact h
    · exact absurd h (not_stands_of_blank hword hg)

theorem not_hasWord_nil : ¬ HasWord word [] :=
  fun h => not_stands_of_blank hword blank_nil (hasWord_iff.1 h)

end Word

theorem hasWord_of_wholeWord? {word : String} {t rest : Text} (h : wholeWord? word t = some rest) :
    HasWord word t := by
  obtain ⟨hafter, hrest⟩ := Option.filter_eq_some_iff.1 h
  have ht := after?_eq_some.1 hafter
  exact ⟨[], rest, ht, rfl, hrest⟩

/-! ## Types -/

theorem exists_word_of_typeAt? {a b name rest : Text}
    (h : typeAt? (.between a b) = some (name, rest)) :
    notAfter isWord a.getLast? = true ∧ ∃ w ∈ typeWords, ∃ c u, isBlank c = true ∧
      blank u = false ∧ b = w.toList ++ c :: u := by
  rw [typeAt?] at h
  split at h
  · next hstart =>
    obtain ⟨u, hfind, hname⟩ := Option.bind_eq_some_iff.1 h
    obtain ⟨w, hw, hkey⟩ := List.exists_of_findSome?_eq_some hfind
    obtain ⟨g, hne, hg, hb⟩ := eq_append_of_keyword? hkey
    have hsolid : blank u = false := by
      obtain ⟨rfl, d, v, rfl, hd, -⟩ := eq_append_of_nameOf? hname
      simp [isBlank_of_isDollarWord (isDollarWord_of_isDollarStart hd)]
    cases g with
    | nil => exact absurd rfl hne
    | cons c g =>
      refine ⟨hstart, w, hw, c, g ++ u, (Bool.and_eq_true_iff.1 hg).1, ?_, hb⟩
      rw [blank_append, hsolid, Bool.and_false]
  · cases h

/-- No type is declared where no type word stands before the last word. -/
theorem firstSite?_typeAt?_eq_none {u name : Text} (hu : ∀ w ∈ typeWords, ¬ HasWord w u)
    (hname : ∀ c ∈ name, isBlank c = false) : firstSite? typeAt? (u ++ name) = none := by
  refine firstSite?_eq_none fun a b heq => ?_
  cases hread : typeAt? (.between a b) with
  | none => rfl
  | some m =>
    obtain ⟨ha, w, hw, c, v, hc, -, rfl⟩ := exists_word_of_typeAt? hread
    have hsolid (d : List Char) (h : name = d ++ c :: v) : False := by
      have := hname c (by simp [h])
      rw [hc] at this
      cases this
    rw [← List.append_assoc] at heq
    rcases List.append_eq_append_iff.1 heq with ⟨d, -, hd⟩ | ⟨d, rfl, hd⟩
    · exact (hsolid d hd).elim
    · cases d with
      | nil => exact (hsolid [] hd.symm).elim
      | cons x d =>
        refine absurd ⟨a, x :: d, List.append_assoc .., ha, ?_⟩ (hu w hw)
        rw [← (List.cons.inj hd).1]
        simp [notBefore, isWord_of_blank hc]

theorem stripAnnotations_cons_of_none {c : Char} {t : Text} (h : annotationAt? ⟨none, 0, c :: t⟩ = none) :
    stripAnnotations (c :: t) = c :: stripAnnotations t := by
  rw [stripAnnotations, replaceAll, replaceFrom, h]
  exact congrArg (c :: ·) (replaceFrom_congr _ (fun _ _ _ _ _ => rfl) _ _ _ _ _ _)

/-- Only an at sign opens an annotation. -/
theorem stripAnnotations_append {s : Text} (hs : '@' ∉ s) (t : Text) :
    stripAnnotations (s ++ t) = s ++ stripAnnotations t := by
  induction s with
  | nil => rfl
  | cons c s ih =>
    simp only [List.mem_cons, not_or] at hs
    have hhead : (c :: (s ++ t)).head? ≠ some '@' := by simpa using Ne.symm hs.1
    rw [List.cons_append, stripAnnotations_cons_of_none, ih hs.2, List.cons_append]
    rw [annotationAt?, char?, after?_eq_none_of_head (c := '@') rfl hhead]
    rfl

theorem stripAnnotations_eq_self {t : Text} (h : '@' ∉ t) : stripAnnotations t = t := by
  have hall := stripAnnotations_append h []
  rwa [List.append_nil, show stripAnnotations [] = [] from rfl, List.append_nil] at hall

theorem findSome?_typeWords {w : String} (hw : w ∈ typeWords) {t : Text}
    (ht : notBefore isBlank t = true) :
    typeWords.findSome? (keyword? · (w.toList ++ ' ' :: t)) = some t :=
  findSome?_keyword? (fun v hv => (solid_of_typeWord v hv).2) hw ht

/-- The header of a type declares the name after the type word. -/
theorem typeName?_type {gap name : Text} {w : String} (hgap : blank gap = true) (hw : w ∈ typeWords)
    (hname : isDollarName name = true) :
    typeName? (gap ++ (w.toList ++ ' ' :: (name ++ [' ']))) = some name := by
  obtain ⟨hne, hword⟩ := all_isDollarWord hname
  have hclean {x : Char} (hx : isBlank x = false) (hx' : isDollarWord x = false)
      (hxw : ∀ w ∈ typeWords, x ∉ w.toList) : x ∉ gap ++ (w.toList ++ ' ' :: (name ++ [' '])) := by
    have hspace : x ≠ ' ' := by
      rintro rfl
      cases hx
    simp [not_mem_of_all hgap hx, hxw w hw, not_mem_of_all hword hx', hspace]
  have hblank : notBefore isBlank (name ++ [' ']) = true := by
    obtain ⟨c, u, rfl⟩ := List.exists_cons_of_ne_nil hne
    simp [notBefore, solid_of_isDollarName hname c List.mem_cons_self]
  have hread : typeAt? (.between gap (w.toList ++ ' ' :: (name ++ [' ']))) = some (name, [' ']) := by
    have hstart : notAfter isWord gap.getLast? = true := by
      cases hl : gap.getLast? with
      | none => rfl
      | some c =>
        simp [notAfter, isWord_of_blank (List.all_eq_true.1 hgap c (List.mem_of_getLast? hl))]
    have hfind := findSome?_typeWords hw hblank
    rw [typeWords] at hfind
    rw [typeAt?, Place.isWordStart, Place.between, if_pos hstart, hfind, Option.bind_some,
      dollarName?_append hname rfl]
  have hfirst : firstSite? typeAt? (gap ++ (w.toList ++ ' ' :: (name ++ [' ']))) =
      some ⟨gap.length, name, [' ']⟩ := by
    refine firstSite?_append (by simp) (fun a₁ a₂ hne heq => ?_) hread
    -- A place before the word is a blank of the gap, where no type word starts.
    cases hnone : typeAt? (.between a₁ (a₂ ++ (w.toList ++ ' ' :: (name ++ [' '])))) with
    | none => rfl
    | some m =>
      obtain ⟨-, v, hv, c, u, -, -, hu⟩ := exists_word_of_typeAt? hnone
      obtain ⟨x, a₂, rfl⟩ := List.exists_cons_of_ne_nil hne
      obtain ⟨y, ys, hy⟩ := List.exists_cons_of_ne_nil (solid_of_typeWord v hv).1
      have hx : isBlank x = true := List.all_eq_true.1 hgap x (by simp [heq])
      have hyx := (solid_of_typeWord v hv).2 y (by simp [hy])
      rw [hy, List.cons_append, List.cons_append] at hu
      rw [← (List.cons.inj hu).1, hx] at hyx
      cases hyx
  rw [typeName?, stripAnnotations_eq_self (hclean (by decide) (by decide) (by decide)),
    before_eq_self (hclean (by decide) (by decide) (by decide)), if_neg, hfirst]
  · rfl
  · simp only [List.contains_iff_mem]
    exact hclean (by decide) (by decide) (by decide)

/-! ## Members -/

/-- The name at the end of a header is told from what precedes it by any character that cannot stand
    in a name. -/
theorem splitName?_append {lead name : Text} (hname : isDollarName name = true)
    (hlead : lead.getLast?.any isDollarWord = false) :
    splitName? (lead ++ name) = some (trim lead, name) := by
  obtain ⟨hne, hword⟩ := all_isDollarWord hname
  have hend : trimEnd (lead ++ name) = lead ++ name :=
    trimEnd_append_of_trim hne (trim_of_isDollarName hname) lead
  have htake : takeTrailing isDollarWord (lead ++ name) = name := (takeTrailing_append hword hlead).1
  have hdrop : name.dropWhile (!isDollarStart ·) = name := by
    cases name with
    | nil => rfl
    | cons c name =>
      rw [List.dropWhile_cons_of_neg (by simp [(Bool.and_eq_true_iff.1 hname).1])]
  have hsome : name.isEmpty = false := List.isEmpty_eq_false_iff.2 hne
  rw [splitName?, hend, htake, hdrop, hsome, if_neg Bool.false_ne_true, List.length_append,
    Nat.add_sub_cancel, List.take_left]

/-- What is written of a member from its type, or nothing for a constructor, to its parameters. -/
def memberHeader (lead name params : Text) : Text := lead ++ (name ++ '(' :: (params ++ [')']))

section Member

variable {gap gap' lead name params : Text}

theorem memberHeader_eq : memberHeader lead name params = lead ++ name ++ '(' :: (params ++ ')' :: []) := by
  rw [memberHeader, List.append_assoc]

/-- What precedes the name of a member has no sign that would make its header another one. -/
def IsLead (lead : Text) : Prop := ∀ c ∈ lead, c ≠ '@' ∧ c ≠ '(' ∧ c ≠ '='

theorem isLead_nil : IsLead [] := List.forall_mem_nil _

theorem IsLead.not_mem (h : IsLead lead) (hname : isDollarName name = true) {x : Char}
    (hx : x = '@' ∨ x = '(' ∨ x = '=') : x ∉ lead ++ name := by
  intro hmem
  rcases List.mem_append.1 hmem with hmem | hmem
  · have := h x hmem
    rcases hx with rfl | rfl | rfl <;> simp_all
  · rcases hx with rfl | rfl | rfl <;>
      exact not_mem_of_all (all_isDollarWord hname).2 (by decide) hmem

theorem stripAnnotations_memberHeader (hgap : blank gap = true) (hgap' : blank gap' = true)
    (hlead : IsLead lead) (hname : isDollarName name = true) (hparams : '@' ∉ params) :
    stripAnnotations (gap ++ (memberHeader lead name params ++ gap')) =
      gap ++ (memberHeader lead name params ++ gap') := by
  have hfree := hlead.not_mem hname (x := '@') (.inl rfl)
  have hg : '@' ∉ gap := not_mem_of_all hgap (by decide)
  have hg' : '@' ∉ gap' := not_mem_of_all hgap' (by decide)
  refine stripAnnotations_eq_self ?_
  simp_all [memberHeader]

/-- A header with a closed parameter list is taken apart at its first parenthesis and its name. -/
theorem member?_memberHeader (hgap : blank gap = true) (hgap' : blank gap' = true)
    (hlead : IsLead lead) (hhead : lead.head?.any isBlank = false)
    (hlast : lead.getLast?.any isDollarWord = false) (hname : isDollarName name = true)
    (hparams : '@' ∉ params) (hclosed : depthAfter '(' ')' 1 params = some 1) (owner : Text) :
    member? owner (gap ++ (memberHeader lead name params ++ gap')) =
      if (collapse (skipModifiers (trim lead))).isEmpty then
        if name = owner then some (.member none name (collapse params) owner) else none
      else if (collapse (skipModifiers (trim lead))).all isTypeChar then
        some (.member (some (collapse (skipModifiers (trim lead)))) name (collapse params) owner)
      else none := by
  have htrim : trim (gap ++ (memberHeader lead name params ++ gap')) =
      memberHeader lead name params := by
    rw [← List.append_assoc, trim_pad hgap hgap', trim_eq_self_iff]
    constructor
    · cases lead with
      | nil =>
        cases name with
        | nil => cases hname
        | cons c name => exact solid_of_isDollarName hname c List.mem_cons_self
      | cons c lead => exact hhead
    · rw [memberHeader_eq, List.getLast?_append, List.getLast?_cons, List.getLast?_concat]
      rfl
  have hgroup : group? ('(' :: (params ++ ')' :: [])) = some (params, []) :=
    group?_of_grouped (.of_balanced hclosed [])
  have hbefore : before '(' (memberHeader lead name params) = lead ++ name := by
    rw [memberHeader_eq, before_append (hlead.not_mem hname (.inr (.inl rfl)))]
  have hdrop : (memberHeader lead name params).drop (lead ++ name).length =
      '(' :: (params ++ ')' :: []) := by
    rw [memberHeader_eq, List.drop_left]
  have hassign : (lead ++ name).contains '=' = false := by
    have hfree := hlead.not_mem hname (x := '=') (.inr (.inr rfl))
    simpa using hfree
  rw [member?, stripAnnotations_memberHeader hgap hgap' hlead hname hparams]
  simp only [htrim, hbefore, hassign, hdrop, hgroup, splitName?_append hname hlast,
    Option.bind_eq_bind, Option.bind_some]
  rfl

end Member

theorem skipModifiers_eq_self {t : Text} (h : afterModifier? t = none) : skipModifiers t = t := by
  rw [skipModifiers]
  split
  · next h' => rw [h] at h'; cases h'
  · rfl

/-- Without type parameters, modifiers are cut off from the front up to the first comma at most. -/
theorem skipModifiers_of_not_mem {t : Text} (ht : '<' ∉ t) :
    skipModifiers t <:+ t ∧ (',' ∈ t → ',' ∈ skipModifiers t) := by
  fun_induction skipModifiers t with
  | case1 t rest hafter ih =>
    have hfree : ∀ w ∈ modifiers, ',' ∉ w.toList := by decide
    rw [afterModifier?] at hafter
    split at hafter
    · next r hfind =>
      obtain rfl := Option.some.inj hafter
      obtain ⟨w, hw, hword⟩ := List.exists_of_findSome?_eq_some hfind
      have hcut := after?_eq_some.1 (Option.filter_eq_some_iff.1 hword).1
      have hsuffix : trimStart r <:+ t := (suffix_trimStart r).trans (hcut ▸ List.suffix_append _ r)
      obtain ⟨hpart, hcomma⟩ := ih fun hmem => ht (hsuffix.subset hmem)
      refine ⟨hpart.trans hsuffix, fun hmem => hcomma ?_⟩
      obtain ⟨g, hg, hr, -⟩ := exists_trimStart r
      rw [hcut, hr, List.mem_append, List.mem_append] at hmem
      rcases hmem with hmem | hmem | hmem
      · exact absurd hmem (hfree w hw)
      · exact absurd hmem (not_mem_of_all hg (by decide))
      · exact hmem
    · split at hafter
      · next hhead => exact absurd (List.mem_of_mem_head? hhead) ht
      · cases hafter
  | case2 t hafter => exact ⟨List.suffix_refl t, id⟩

/-- What may be written as the type of a method: on one line, of the characters of types, starting
    with no type parameters and holding no modifier and no type word. -/
structure IsResult (r : Text) : Prop where
  ne_nil : r ≠ []
  collapsed : collapse r = r
  chars : r.all isTypeChar = true
  head : r.head? ≠ some '<'
  words : ∀ w ∈ modifiers ++ typeWords, ¬ HasWord w r

/-- Whether a character may stand between the parentheses of a member. -/
def isParameterChar (c : Char) : Bool := !(isQuote c || c == '{' || c == '}' || c == '@')

/-- What may be written between the parentheses of a member: on one line, every parenthesis matched,
    without literals, braces and annotations. -/
structure IsParameters (params : Text) : Prop where
  collapsed : collapse params = params
  closed : depthAfter '(' ')' 1 params = some 1
  chars : params.all isParameterChar = true

theorem IsResult.trim {r : Text} (h : IsResult r) : Text.trim r = r := by
  rw [← h.collapsed, trim_collapse]

theorem IsResult.skipModifiers {r : Text} (h : IsResult r) : Java.skipModifiers r = r := by
  refine skipModifiers_eq_self ?_
  have hnone : modifiers.findSome? (wholeWord? · r) = none := by
    refine List.findSome?_eq_none_iff.2 fun w hw => ?_
    cases hword : wholeWord? w r with
    | none => rfl
    | some rest =>
      exact absurd (hasWord_of_wholeWord? hword) (h.words w (List.mem_append_left _ hw))
  rw [afterModifier?, hnone]
  exact if_neg h.head

theorem IsResult.leadChars {r : Text} (h : IsResult r) : (r ++ [' ']).all isTypeChar = true := by
  rw [List.all_append, h.chars]
  decide

theorem IsResult.isLead {r : Text} (h : IsResult r) : IsLead (r ++ [' ']) := by
  intro c hc
  refine ⟨?_, ?_, ?_⟩ <;> rintro rfl <;> exact not_mem_of_all h.leadChars (by decide) hc

theorem IsResult.not_hasWord {r : Text} (h : IsResult r) :
    ∀ w ∈ typeWords, ¬ HasWord w (r ++ [' ']) := by
  intro w hw hword
  exact h.words w (List.mem_append_right _ hw) (hasWord_of_append_blank (isWordRun_typeWords w hw) rfl hword)

section Member

variable {gap gap' name params : Text} (hgap : blank gap = true) (hgap' : blank gap' = true)
  (hname : isName name = true) (hparams : IsParameters params)

include hgap hgap' hname hparams

theorem member?_method {r : Text} (hr : IsResult r) (owner : Text) :
    member? owner (gap ++ (memberHeader (r ++ [' ']) name params ++ gap')) =
      some (.member (some r) name params owner) := by
  have htrim : trim (r ++ [' ']) = r := by
    rw [trim_concat_of_blank isBlank_space, hr.trim]
  have hhead : (r ++ [' ']).head?.any isBlank = false := by
    obtain ⟨c, r', rfl⟩ := List.exists_cons_of_ne_nil hr.ne_nil
    exact (trim_eq_self_iff.1 hr.trim).1
  rw [member?_memberHeader hgap hgap' hr.isLead hhead (by rw [List.getLast?_concat]; decide)
    (isDollarName_of_isName hname) (not_mem_of_all hparams.chars (by decide)) hparams.closed, htrim, hr.skipModifiers,
    hr.collapsed, hr.chars, hparams.collapsed, if_neg (by simp [hr.ne_nil]), if_pos rfl]

theorem member?_constructor :
    member? name (gap ++ (memberHeader [] name params ++ gap')) =
      some (.member none name params name) := by
  have hskip : skipModifiers [] = [] := skipModifiers_eq_self (by decide)
  rw [member?_memberHeader hgap hgap' isLead_nil rfl rfl
    (isDollarName_of_isName hname) (not_mem_of_all hparams.chars (by decide)) hparams.closed, trim_nil, hskip, collapse_nil,
    hparams.collapsed, if_pos rfl]
  rfl

/-- The header of a member declares no type. -/
theorem typeName?_memberHeader {lead : Text} (hlead : IsLead lead)
    (hwords : ∀ w ∈ typeWords, ¬ HasWord w lead) :
    typeName? (gap ++ (memberHeader lead name params ++ gap')) = none := by
  have hfree {x : Char} (hx : x = '@' ∨ x = '(' ∨ x = '=') (hb : isBlank x = false) :
      x ∉ gap ++ lead ++ name := by
    have := hlead.not_mem (isDollarName_of_isName hname) hx
    have := not_mem_of_all hgap hb
    simp_all
  have hbefore : before '(' (gap ++ (memberHeader lead name params ++ gap')) = gap ++ lead ++ name := by
    have heq : gap ++ (memberHeader lead name params ++ gap') =
        gap ++ lead ++ name ++ '(' :: (params ++ ')' :: gap') := by
      simp [memberHeader]
    rw [heq, before_append (hfree (.inr (.inl rfl)) (by decide))]
  have hnone : firstSite? typeAt? (gap ++ lead ++ name) = none := by
    refine firstSite?_typeAt?_eq_none (fun w hw hword => hwords w hw ?_) fun c hc =>
      isBlank_of_isWord (List.all_eq_true.1 (all_isWord_of_isName hname) c hc)
    exact hasWord_of_blank_append (isWordRun_typeWords w hw) hgap hword
  rw [typeName?, stripAnnotations_memberHeader hgap hgap' hlead (isDollarName_of_isName hname)
    (not_mem_of_all hparams.chars (by decide)), hbefore, if_neg, hnone]
  · rfl
  · simp only [List.contains_iff_mem]
    exact hfree (.inr (.inr rfl)) (by decide)

end Member

/-! ## Fields -/

/-- Whether a character may stand in the type of a field. -/
def isFieldChar (c : Char) : Bool :=
  !(c == '(' || c == ')' || isQuote c || c == '{' || c == '}' || c == ';' || c == '=')

/-- An annotation before an assignment ends before it, unless it has arguments. -/
theorem length_le_of_annotationAt? {p : Place} {s t rest : Text} (hs : '(' ∉ s)
    (hp : p.rest = s ++ '=' :: t) (h : annotationAt? p = some rest) :
    ('=' :: t).length ≤ rest.length := by
  rw [annotationAt?, hp] at h
  obtain ⟨u, hu, h⟩ := Option.bind_eq_some_iff.1 h
  split at h
  · cases h
  · obtain ⟨v, hv, hrest⟩ := Option.bind_eq_some_iff.1 h
    cases s with
    | nil => simp [char?, after?] at hu
    | cons c s =>
      rw [char?, after?_eq_some, List.cons_append, List.singleton_append] at hu
      obtain ⟨rfl, rfl⟩ := List.cons.inj hu
      rw [skip1?_eq] at hv
      split at hv
      · rw [dropWhile_append_cons (by decide), Option.some.injEq] at hv
        -- what follows the name of the annotation, blanks apart, is no parenthesis
        have hnone : char? '(' (trimStart v) = none := by
          rw [← hv, trimStart, dropWhile_append_cons (by decide)]
          refine after?_eq_none_of_head (c := '(') rfl ?_
          cases hd : (s.dropWhile fun c => isDollarWord c || c == '.').dropWhile isBlank with
          | nil => simp
          | cons x xs =>
            rintro ⟨⟩
            have hmem : '(' ∈ (s.dropWhile fun c => isDollarWord c || c == '.').dropWhile isBlank := by
              rw [hd]
              exact List.mem_cons_self
            refine hs (List.mem_cons_of_mem '@' ?_)
            exact (List.dropWhile_sublist _).subset ((List.dropWhile_sublist _).subset hmem)
        rw [hnone, Option.bind_none, Option.getD_none] at hrest
        obtain rfl := Option.some.inj hrest
        rw [← hv, List.length_append]
        exact Nat.le_add_left _ _
      · cases hv

/-- An assignment stays outside all parentheses when annotations are removed. -/
theorem exists_assignment {s t : Text} (hs : '(' ∉ s) {n : Nat} (hn : n ≤ s.length)
    (prev : Option Char) (k : Nat) :
    ∃ a b, '(' ∉ a ∧ replaceFrom annotationAt? [' '] n prev k (s ++ '=' :: t) = a ++ '=' :: b := by
  -- What is skipped never reaches past the assignment: an annotation in front of it has no arguments
  -- there, since no parenthesis is left before the sign.
  induction s generalizing n prev k with
  | nil =>
    obtain rfl : n = 0 := Nat.le_zero.1 hn
    refine ⟨[], replaceFrom annotationAt? [' '] 0 (some '=') (k + 1) t, List.not_mem_nil, ?_⟩
    rw [List.nil_append, replaceFrom]
    rfl
  | cons c s ih =>
    simp only [List.mem_cons, not_or] at hs
    cases n with
    | succ n => exact ih hs.2 (Nat.le_of_succ_le_succ hn) (some c) (k + 1)
    | zero =>
      rw [List.cons_append, replaceFrom]
      split
      · next rest hread =>
        have hlen := length_le_of_annotationAt? (s := c :: s) (by simpa using hs) rfl hread
        obtain ⟨a, b, ha, heq⟩ := ih hs.2 (n := (s ++ '=' :: t).length - rest.length)
          (by rw [List.length_append]; omega) (some c) (k + 1)
        refine ⟨' ' :: a, b, by simp [ha], ?_⟩
        rw [heq]
        rfl
      · obtain ⟨a, b, ha, heq⟩ := ih hs.2 (Nat.zero_le _) (some c) (k + 1)
        refine ⟨c :: a, b, by simp [ha, hs.1], ?_⟩
        rw [heq]
        rfl

/-- A header with an assignment before its first parenthesis declares no member. -/
theorem member?_assignment {s : Text} (hs : '(' ∉ s) (t owner : Text) :
    member? owner (s ++ '=' :: t) = none := by
  obtain ⟨a, b, ha, heq⟩ := exists_assignment (t := t) hs (Nat.zero_le _) none 0
  have hmem : '=' ∈ before '(' (trim (stripAnnotations (s ++ '=' :: t))) := by
    have hlead (c : Char) (hc : c ∈ trimStart a) : decide (c ≠ '(') = true := by
      refine decide_eq_true ?_
      rintro rfl
      exact ha ((List.dropWhile_sublist _).subset hc)
    rw [stripAnnotations, replaceAll, heq, trim_append_cons (by decide), before,
      List.takeWhile_append_of_pos hlead]
    simp
  rw [member?]
  simp only [List.contains_iff_mem, if_pos hmem]

/-- A header without parentheses declares no member. -/
theorem member?_of_not_mem {s : Text} (hs : '(' ∉ s) (owner : Text) : member? owner s = none := by
  have hfree : '(' ∉ trim (stripAnnotations s) := by
    intro hmem
    obtain ⟨g, g', -, -, heq⟩ := exists_trim (stripAnnotations s)
    have hmem' : '(' ∈ stripAnnotations s := by
      rw [heq]
      simp [hmem]
    rcases mem_of_mem_replaceFrom hmem' with h | h
    · simp at h
    · exact hs h
  rw [member?]
  simp only [before_eq_self hfree, List.drop_length]
  split
  · rfl
  · rfl

/-- A header in which a comma follows its first list declares no member. -/
theorem member?_of_comma {p a q : Text} (hat : '@' ∉ p ++ '(' :: (a ++ ')' :: ',' :: q))
    (hp : '(' ∉ p) (ha : depthAfter '(' ')' 1 a = some 1) (owner : Text) :
    member? owner (p ++ '(' :: (a ++ ')' :: ',' :: q)) = none := by
  have htrim : trim (p ++ '(' :: (a ++ ')' :: ',' :: q)) =
      trimStart p ++ '(' :: (a ++ ')' :: (',' :: trimEnd q)) := by
    have hend := trimEnd_append_cons (c := ',') (by decide) (a ++ [')']) q
    rw [List.append_assoc, List.append_assoc] at hend
    rw [trim_append_cons (by decide)]
    exact congrArg (trimStart p ++ '(' :: ·) hend
  have hhead : before '(' (trimStart p ++ '(' :: (a ++ ')' :: (',' :: trimEnd q))) = trimStart p :=
    before_append (fun hmem => hp ((suffix_trimStart p).subset hmem)) _
  have hgroup : group? ('(' :: (a ++ ')' :: (',' :: trimEnd q))) = some (a, ',' :: trimEnd q) :=
    group?_of_grouped (.of_balanced ha _)
  have htail : trim (',' :: trimEnd q) = ',' :: trimEnd (trimEnd q) :=
    trim_append_cons (c := ',') (by decide) [] (trimEnd q)
  rw [member?, stripAnnotations_eq_self hat]
  simp only [htrim, hhead, List.drop_left, hgroup, Option.bind_eq_bind, Option.bind_some, htail]
  split
  · rfl
  · rfl

end Synopsis.Java
