import Synopsis.Proofs.Comment
import Synopsis.Proofs.Nesting.Depth
import Synopsis.Proofs.Nesting.TypeText
import Synopsis.Proofs.Script.Agreement

/-!
# TypeScript and JavaScript: components with a forwarded reference

A constant bound to a call of `React.forwardRef` with an arrow function is located in three steps: a
reader finds the call, a balanced scan skips its type arguments, and the first parameter list inside the
arguments is taken. The scan counts every closing angle bracket, the second sign of an arrow too, so it
comes out behind the type arguments exactly when there is no function type in them. Such a component is
found wherever it stands in a source, with the parameters of its arrow function (`extract_component`).
-/

namespace Synopsis.Script

open Text

/-! ## Components -/

/-- A constant bound to a call that forwards a reference, with an arrow function as its argument. -/
structure Component where
  isExported : Bool
  name : Text
  typeArguments : Text
  parameters : Text
  body : Text
deriving DecidableEq, Repr

/-- What is written before the name. -/
def Component.lead (c : Component) : Text :=
  (if c.isExported then "export ".toList else []) ++ "const ".toList

/-- The argument of the call. -/
def Component.argument (c : Component) : Text := '(' :: (c.parameters ++ ')' :: (" => ".toList ++ c.body))

/-- The arguments of the call and the end of the statement. -/
def Component.arguments (c : Component) : Text := '(' :: (c.argument ++ ')' :: [';'])

/-- What is written after the word of the call. -/
def Component.call (c : Component) : Text := '<' :: (c.typeArguments ++ '>' :: c.arguments)

/-- What is written from the name on. -/
def Component.binding (c : Component) : Text :=
  c.name ++ ([' '] ++ '=' :: (" React.forwardRef".toList ++ c.call))

/-- A component as it is written. -/
def Component.text (c : Component) : Text := c.lead ++ c.binding

/-- A component whose parts can be told apart. -/
structure Component.WellFormed (c : Component) : Prop where
  name : isDollarName c.name = true
  typeArguments : NestedType c.typeArguments
  parameters : depthAfter '(' ')' 1 c.parameters = some 1
  body : depthAfter '(' ')' 1 c.body = some 1

/-- The signature of a component: an owner marker in the parameters is taken out of them. -/
def Component.signature (c : Component) : Signature where
  name := c.name
  parameters := Script.parameters (splitOwner c.parameters).1
  className := (splitOwner c.parameters).2

/-- A component at the top level of a source, on a line of its own, where what precedes it is not cut off in
    front of the arguments of such a call. -/
structure Component.StandsIn (c : Component) (source before gap after : Text) : Prop where
  written : CommentStyle.slashes.strip source = before ++ (gap ++ (c.text ++ after))
  blank_gap : blank gap = true
  startsLine : before = [] ∨ gap.head? = some '\n' ∨ gap.head? = some '\r'
  topLevel : topLevelAt (braceDepths (CommentStyle.slashes.strip source)) (before ++ gap).length = true
  clear : ¬ "forwardRef".toList <:+ trimEnd before

/-! ## Type arguments -/

/-- The type arguments are skipped as a whole exactly when no arrow is in them. -/
theorem skips_typeArguments_iff {s : Text} (h : NestedType s) (t : Text) :
    (balanced '<' '>' ('<' :: s ++ '>' :: t)).2 = t ↔ ¬ fatArrow <:+: s := by
  rw [← h.depthAfter_iff]
  constructor
  · intro hskip
    obtain ⟨k, -, hlowers⟩ := h.exists_lowers
    have hs := hlowers 1 (Nat.le_refl 1)
    split at hs
    · next hk =>
      obtain rfl : k = 0 := by omega
      exact hs
    · -- The bracket is closed inside the arguments, and the rest is longer than what follows them.
      obtain ⟨u, r, rfl, hu⟩ := exists_close hs
      have hcut := balanced_of_depthAfter hu (by decide) (r ++ '>' :: t)
      have hwritten : '<' :: (u ++ '>' :: r) ++ '>' :: t = '<' :: u ++ '>' :: (r ++ '>' :: t) := by simp
      rw [hwritten, hcut] at hskip
      have hlength := congrArg List.length hskip
      simp only [List.length_append, List.length_cons] at hlength
      omega
  · intro hs
    rw [balanced_of_depthAfter hs (by decide)]

/-! ## The call -/

/-- What follows the word of the call, behind an equals sign. -/
def forwarded? (t : Text) : Option Text :=
  let t := trimStart t
  (after? "forwardRef".toList ((after? "React.".toList t).getD t)).map trimStart

theorem forwardRefAt?_eq (p : Place) : forwardRefAt? p = (lineLead? p).bind fun lead =>
    (constant? p lead).bind fun m => (char? '=' (trimStart m.2)).bind fun t =>
      (forwarded? t).map fun rest => (m.1, rest) := by
  unfold forwardRefAt? forwarded?
  simp only [Option.bind_eq_bind, Option.map_eq_bind, Option.bind_assoc]
  rfl

theorem trimStart_of_lineLead? {p : Place} {lead : Text} (h : lineLead? p = some lead) :
    lead = trimStart p.rest := by
  obtain ⟨prev, k, t⟩ := p
  cases prev with
  | none => exact (Option.some.inj h).symm
  | some x =>
    cases t with
    | nil => cases h
    | cons c t =>
      have h : (if c = '\n' || c = '\r' then some (trimStart t) else none) = some lead := h
      split at h
      · next hline =>
        have hblank : blank [c] = true := by
          have hc : c = '\n' ∨ c = '\r' := by simpa using hline
          rcases hc with rfl | rfl <;> decide
        rw [← Option.some.inj h]
        exact (trimStart_append_of_blank hblank t).symm
      · cases h

theorem lineLead?_between {before gap t : Text} (hgap : blank gap = true)
    (hline : before = [] ∨ gap.head? = some '\n' ∨ gap.head? = some '\r')
    (ht : t.head?.any isBlank = false) : lineLead? (.between before (gap ++ t)) = some t := by
  have hstart {g : Text} (hg : blank g = true) : trimStart (g ++ t) = t :=
    (trimStart_append_of_blank hg t).trans (trimStart_eq_self ht)
  cases hlast : before.getLast? with
  | none =>
    unfold lineLead? Place.between
    rw [hlast]
    exact congrArg some (hstart hgap)
  | some x =>
    have hne : before ≠ [] := by
      rintro rfl
      cases hlast
    obtain ⟨c, hc, hhead⟩ : ∃ c, (c = '\n' ∨ c = '\r') ∧ gap.head? = some c := by
      rcases hline.resolve_left hne with h | h
      · exact ⟨_, .inl rfl, h⟩
      · exact ⟨_, .inr rfl, h⟩
    obtain ⟨g, rfl⟩ := List.head?_eq_some_iff.1 hhead
    have hg : blank g = true := (Bool.and_eq_true_iff.1 hgap).2
    have htest : (decide (c = '\n') || decide (c = '\r')) = true := by simpa using hc
    unfold lineLead? Place.between
    rw [hlast]
    exact (if_pos htest).trans (congrArg some (hstart hg))

/-! ## Where the name stands -/

/-- What is written up to the equals sign of a constant: something that ends in a blank, the name and
    blanks. -/
structure IsBinder (front name gap : Text) : Prop where
  free : '=' ∉ front
  ends : front.getLast?.any isBlank = true
  name : isDollarName name = true
  gap : blank gap = true

theorem IsBinder.not_mem {front name gap : Text} (h : IsBinder front name gap) :
    '=' ∉ front ++ name ++ gap := by
  rw [List.append_assoc, List.mem_append, List.mem_append, not_or, not_or]
  exact ⟨h.free, not_mem_of_isDollarName h.name (by decide +kernel),
    not_mem_of_all h.gap (by decide)⟩

theorem IsBinder.solid {front name gap : Text} (h : IsBinder front name gap) :
    name.all (!isBlank ·) = true :=
  List.all_eq_true.2 fun c hc => by rw [solid_of_isDollarName h.name c hc]; rfl

theorem IsBinder.ends_not {front name gap : Text} (h : IsBinder front name gap) :
    front.getLast?.any (!isBlank ·) = false := by
  have hends := h.ends
  cases hlast : front.getLast? with
  | none => rfl
  | some c =>
    rw [hlast] at hends
    simpa using hends

theorem IsBinder.last {front name gap : Text} (h : IsBinder front name gap) :
    (front ++ name).getLast?.any isBlank = false := by
  have hne := (all_isDollarWord h.name).1
  rw [← getLast?_of_suffix (List.suffix_append _ _) hne, List.getLast?_eq_some_getLast hne]
  exact solid_of_isDollarName h.name _ (List.getLast_mem hne)

theorem IsBinder.cutAt?_eq {front name gap : Text} (h : IsBinder front name gap) (t : Text) :
    cutAt? '=' (front ++ (name ++ (gap ++ '=' :: t))) = some (front ++ name ++ gap, t) := by
  rw [← List.append_assoc, ← List.append_assoc, cutAt?_append h.not_mem]

/-- The first equals sign tells where the name ends, and the blank before it where it begins. -/
theorem IsBinder.unique {front front' name name' gap gap' t t' : Text} (h : IsBinder front name gap)
    (h' : IsBinder front' name' gap')
    (heq : front ++ (name ++ (gap ++ '=' :: t)) = front' ++ (name' ++ (gap' ++ '=' :: t'))) :
    front = front' ∧ name = name' ∧ gap = gap' ∧ t = t' := by
  have hcut := congrArg (cutAt? '=') heq
  rw [h.cutAt?_eq, h'.cutAt?_eq] at hcut
  obtain ⟨hbinder, ht⟩ := Prod.mk.inj (Option.some.inj hcut)
  obtain ⟨hhead, hgap⟩ := append_inj_of_trailing h.gap h'.gap h.last h'.last hbinder
  obtain ⟨hfront, hname⟩ := append_inj_of_trailing h.solid h'.solid h.ends_not h'.ends_not hhead
  exact ⟨hfront, hname, hgap, ht⟩

/-! ## What the reader takes -/

theorem exists_front_of_constant? {p : Place} {lead rest : Text} {head : Head}
    (h : constant? p lead = some (head, rest)) : ∃ front, lead = front ++ (head.name ++ rest) ∧
      '=' ∉ front ∧ front.getLast?.any isBlank = true ∧
      head.nameOffset = p.offsetOf (head.name ++ rest) := by
  obtain ⟨t, name, hconst, hname, rfl⟩ := constant?_eq_some_iff.1 h
  obtain ⟨e, hlead, he⟩ := exists_append_flag "export" lead
  obtain ⟨g, hne, hg, hkeyword⟩ := eq_append_of_keyword? hconst
  obtain ⟨rfl, -⟩ := eq_append_of_nameOf? hname
  have hkeyword : (flag "export" lead).2 = "const".toList ++ (g ++ (name ++ rest)) := hkeyword
  refine ⟨e ++ ("const".toList ++ g), ?_, ?_, ?_, rfl⟩
  · rw [hkeyword] at hlead
    show lead = e ++ ("const".toList ++ g) ++ (name ++ rest)
    rw [hlead]
    simp only [List.append_assoc]
  · have hfree {g : Text} (hg : blank g = true) : '=' ∉ g := not_mem_of_all hg (by decide)
    have hexport : '=' ∉ e := by
      rcases he with rfl | ⟨g', hg', rfl⟩
      · exact List.not_mem_nil
      · simp [hfree hg']
    simp [hexport, hfree hg]
  · rw [← List.append_assoc, List.getLast?_append, List.getLast?_eq_some_getLast hne, Option.some_or]
    exact List.all_eq_true.1 hg _ (List.getLast_mem hne)

theorem exists_cut_of_forwardRefAt? {p : Place} {found : Head} {rest : Text}
    (h : forwardRefAt? p = some (found, rest)) : ∃ front gap t, IsBinder front found.name gap ∧
      trimStart p.rest = front ++ (found.name ++ (gap ++ '=' :: t)) ∧
      found.nameOffset = p.offsetOf (found.name ++ (gap ++ '=' :: t)) ∧ forwarded? t = some rest := by
  have hdollar := isDollarName_of_forwardRefAt? h
  rw [forwardRefAt?_eq] at h
  obtain ⟨lead, hlead, h⟩ := Option.bind_eq_some_iff.1 h
  obtain ⟨⟨head, u⟩, hconstant, h⟩ := Option.bind_eq_some_iff.1 h
  obtain ⟨t, hequals, h⟩ := Option.bind_eq_some_iff.1 h
  obtain ⟨r, hforwarded, h⟩ := Option.map_eq_some_iff.1 h
  obtain ⟨rfl, rfl⟩ := Prod.mk.inj h
  obtain ⟨front, hfront, hfree, hends, hoffset⟩ := exists_front_of_constant? hconstant
  obtain ⟨gap, hgap, hu, -⟩ := exists_trimStart u
  have hequals : trimStart u = '=' :: t := after?_eq_some.1 hequals
  rw [hequals] at hu
  subst hu
  refine ⟨front, gap, t, ⟨hfree, hends, hdollar, hgap⟩, ?_, hoffset, hforwarded⟩
  rw [← trimStart_of_lineLead? hlead, hfront]

theorem head?_text (c : Component) (t : Text) :
    (c.text ++ t).head? = some 'c' ∨ (c.text ++ t).head? = some 'e' := by
  unfold Component.text Component.lead
  cases c.isExported with
  | true => exact .inr rfl
  | false => exact .inl rfl

theorem isBinder_lead {c : Component} (h : c.WellFormed) {s : Text} (hs : '=' ∉ s) :
    IsBinder (s ++ c.lead) c.name [' '] := by
  have hlead : '=' ∉ c.lead ∧ c.lead.getLast? = some ' ' := by
    unfold Component.lead
    cases c.isExported <;> decide
  refine ⟨?_, ?_, h.name, rfl⟩
  · rw [List.mem_append, not_or]
    exact ⟨hs, hlead.1⟩
  · rw [List.getLast?_append, hlead.2]
    rfl

theorem forwardRefAt?_between {before gap : Text} {c : Component} (h : c.WellFormed)
    (hgap : blank gap = true) (hline : before = [] ∨ gap.head? = some '\n' ∨ gap.head? = some '\r')
    (after : Text) : forwardRefAt? (.between before (gap ++ (c.text ++ after))) =
      some ({ isExported := c.isExported, name := c.name,
              nameOffset := (before ++ (gap ++ c.lead)).length }, c.call ++ after) := by
  have hlead : lineLead? (.between before (gap ++ (c.text ++ after))) = some (c.text ++ after) := by
    refine lineLead?_between hgap hline ?_
    rcases head?_text c after with h | h <;> rw [h] <;> decide
  have hname : (c.name ++ ' ' :: '=' :: (" React.forwardRef".toList ++ (c.call ++ after))) =
      c.binding ++ after := by
    simp only [Component.binding, List.append_assoc, List.cons_append, List.nil_append]
  have hwritten : c.text ++ after = (if c.isExported then "export ".toList else []) ++ ("const ".toList ++
      (c.name ++ ' ' :: '=' :: (" React.forwardRef".toList ++ (c.call ++ after)))) := by
    rw [hname]
    simp only [Component.text, Component.lead, List.append_assoc]
  have hoffset : (Place.between before (gap ++ (c.text ++ after))).offsetOf (c.binding ++ after) =
      (before ++ (gap ++ c.lead)).length := by
    have hcut : gap ++ (c.text ++ after) = (gap ++ c.lead) ++ (c.binding ++ after) := by
      simp [Component.text]
    rw [hcut, Place.offsetOf_between]
  have hconstant := constant?_append (.between before (gap ++ (c.text ++ after))) c.isExported h.name
    (' ' :: '=' :: (" React.forwardRef".toList ++ (c.call ++ after))) rfl
  rw [← hwritten, hname, hoffset] at hconstant
  rw [forwardRefAt?_eq, hlead, Option.bind_some, hconstant]
  rfl

/-! ## Earlier hits -/

/-- A word that begins before a component ends before it when a blank stands between the two. -/
theorem exists_append_of_after? {lead m t w : Text} (hm : m.getLast?.all isBlank = true)
    (hne : lead ≠ []) (hlead : lead.any isBlank = false) (hfirst : lead.head? ≠ t.head?)
    (h : after? lead (m ++ t) = some w) : ∃ u, m = lead ++ u ∧ w = u ++ t := by
  cases hlast : m.getLast? with
  | none =>
    obtain rfl := List.getLast?_eq_none_iff.1 hlast
    obtain ⟨y, l, rfl⟩ := List.exists_cons_of_ne_nil hne
    rw [List.nil_append, after?_eq_none_of_head (c := y) rfl (Ne.symm hfirst)] at h
    cases h
  | some x =>
    rw [hlast, Option.all_some] at hm
    have hx : x ∉ lead := fun hmem => by
      rw [not_of_any_eq_false hlead x hmem] at hm
      cases hm
    rw [after?_append_of_getLast? hlast hx] at h
    obtain ⟨u, hu, rfl⟩ := Option.map_eq_some_iff.1 h
    exact ⟨u, after?_eq_some.1 hu, rfl⟩

/-- Nothing but the word and the prefix `React.` may stand in front of a component that starts anew. -/
theorem exists_of_forwarded?_append {s t rest : Text} {x : Char} (hlast : s.getLast? = some x)
    (hx : isBlank x = true) (ht : t.head? = some 'c' ∨ t.head? = some 'e')
    (h : forwarded? (s ++ t) = some rest) :
    ∃ z u, s = z ++ ("forwardRef".toList ++ u) ∧ rest = trimStart u ++ t := by
  have hsolid : t.head?.any isBlank = false := by rcases ht with h | h <;> rw [h] <;> decide
  have hend {m : Text} (hm : m <:+ s) : m.getLast?.all isBlank = true := by
    cases m with
    | nil => rfl
    | cons y m =>
      rw [getLast?_of_suffix hm (List.cons_ne_nil y m), hlast]
      exact hx
  have hfound {m w : Text} (hm : m <:+ s) (hw : after? "forwardRef".toList (m ++ t) = some w) :
      ∃ z u, s = z ++ ("forwardRef".toList ++ u) ∧ trimStart w = trimStart u ++ t := by
    obtain ⟨u, rfl, rfl⟩ := exists_append_of_after? (hend hm) (by decide) (by decide)
      (by rcases ht with h | h <;> rw [h] <;> decide) hw
    obtain ⟨z, hz⟩ := hm
    exact ⟨z, u, hz.symm, trimStart_append_solid hsolid u⟩
  unfold forwarded? at h
  rw [trimStart_append_solid hsolid] at h
  obtain ⟨v, hv, rfl⟩ := Option.map_eq_some_iff.1 h
  cases hreact : after? "React.".toList (trimStart s ++ t) with
  | none =>
    rw [hreact] at hv
    exact hfound (suffix_trimStart s) hv
  | some w =>
    obtain ⟨u, hu, rfl⟩ := exists_append_of_after? (hend (suffix_trimStart s)) (by decide) (by decide)
      (by rcases ht with h | h <;> rw [h] <;> decide) hreact
    rw [hreact] at hv
    exact hfound ((List.suffix_append _ u).trans (hu ▸ suffix_trimStart s)) hv

/-- A call that is found before a component ends before the line of that component, unless only blanks stand
    between the two. -/
theorem length_le_of_forwarded? {s gap u t rest : Text} (hgap : blank gap = true) (hne : gap ≠ [])
    (hclear : ¬ "forwardRef".toList <:+ trimEnd s) (hu : '=' :: u <:+ s ++ gap)
    (ht : t.head? = some 'c' ∨ t.head? = some 'e') (h : forwarded? (u ++ t) = some rest) :
    (gap ++ t).length ≤ rest.length := by
  have hblank : isBlank (gap.getLast hne) = true := List.all_eq_true.1 hgap _ (List.getLast_mem hne)
  have hlast : (s ++ gap).getLast? = some (gap.getLast hne) := by
    rw [List.getLast?_append, List.getLast?_eq_some_getLast hne, Option.some_or]
  have hequals : ('=' :: u).getLast? = some (gap.getLast hne) :=
    (getLast?_of_suffix hu (List.cons_ne_nil _ u)).trans hlast
  have hulast : u.getLast? = some (gap.getLast hne) := by
    cases u with
    | nil =>
      rw [← Option.some.inj hequals] at hblank
      exact absurd hblank (by decide)
    | cons x u => rwa [List.getLast?_cons_cons] at hequals
  obtain ⟨z, w, rfl, rfl⟩ := exists_of_forwarded?_append hulast hblank ht h
  obtain ⟨y, hy⟩ := hu
  have hw : trimStart w <:+ s ++ gap := by
    refine (suffix_trimStart w).trans ⟨y ++ '=' :: (z ++ "forwardRef".toList), ?_⟩
    rw [← hy]
    simp
  rw [List.length_append, List.length_append, Nat.add_le_add_iff_right]
  rcases List.suffix_or_suffix_of_suffix hw (List.suffix_append s gap) with hshort | hlong
  · -- What is left between the call and the component is blank, and it was taken.
    have hblankw : blank w = true := by
      obtain ⟨g, hg, hgw, -⟩ := exists_trimStart w
      rw [hgw, blank_append, hg, Bool.true_and]
      exact List.all_eq_true.2 fun x hx => List.all_eq_true.1 hgap x (hshort.subset hx)
    have hend : trimEnd s = y ++ '=' :: z ++ "forwardRef".toList :=
      calc trimEnd s = trimEnd (s ++ gap) := (trimEnd_append_of_blank hgap s).symm
        _ = trimEnd (y ++ '=' :: z ++ "forwardRef".toList ++ w) := by
          rw [← hy]
          simp only [List.append_assoc, List.cons_append]
        _ = trimEnd (y ++ '=' :: z ++ "forwardRef".toList) := trimEnd_append_of_blank hblankw _
        _ = y ++ '=' :: z ++ "forwardRef".toList := trimEnd_append_of_trim (by decide) (by decide) _
    exact absurd (hend ▸ List.suffix_append _ _) hclear
  · exact hlong.length_le

/-- An earlier hit that takes the line end in front of a component reads that component. -/
theorem forwardRefAt?_overlap {a k gap after rest : Text} {found : Head} {c : Component}
    (h : c.WellFormed) (hgap : blank gap = true) (hne : gap ≠ [])
    (hclear : ¬ "forwardRef".toList <:+ trimEnd (a ++ k))
    (hread : forwardRefAt? (.between a (k ++ (gap ++ (c.text ++ after)))) = some (found, rest))
    (hlong : rest.length < (gap ++ (c.text ++ after)).length) :
    found.name = c.name ∧ found.nameOffset = (a ++ k ++ (gap ++ c.lead)).length ∧
      rest = c.call ++ after := by
  obtain ⟨front, spaces, t, hbinder, hlead, hoffset, hforwarded⟩ := exists_cut_of_forwardRefAt? hread
  have hsolid : (c.text ++ after).head?.any isBlank = false := by
    rcases head?_text c after with h | h <;> rw [h] <;> decide
  have hcut : c.text ++ after =
      c.lead ++ (c.name ++ ([' '] ++ '=' :: (" React.forwardRef".toList ++ (c.call ++ after)))) := by
    simp [Component.text, Component.binding]
  have hsuffix : trimStart (k ++ gap) <:+ k ++ gap := suffix_trimStart _
  have hlead : trimStart (k ++ gap) ++ (c.text ++ after) =
      front ++ (found.name ++ (spaces ++ '=' :: t)) := by
    rw [← hlead, ← trimStart_append_solid hsolid, List.append_assoc]
    rfl
  by_cases hmem : '=' ∈ trimStart (k ++ gap)
  · -- The earlier hit has its equals sign before the component, so its word stands there too.
    exfalso
    obtain ⟨s, u, hsu, hs⟩ := List.eq_append_cons_of_mem hmem
    have ht : u ++ (c.text ++ after) = t := by
      have hequals := congrArg (cutAt? '=') hlead
      rw [hsu, List.append_assoc, List.cons_append, cutAt?_append hs, hbinder.cutAt?_eq] at hequals
      exact (Prod.mk.inj (Option.some.inj hequals)).2
    have hu : '=' :: u <:+ a ++ k ++ gap := by
      rw [List.append_assoc]
      exact ((List.suffix_append s _).trans (hsu ▸ hsuffix)).trans (List.suffix_append a _)
    have hreach := length_le_of_forwarded? hgap hne hclear hu (head?_text c after) (ht ▸ hforwarded)
    omega
  · have hcomponent := isBinder_lead h hmem
    rw [hcut, ← List.append_assoc] at hlead
    obtain ⟨-, hname, hspaces, ht⟩ := hcomponent.unique hbinder hlead
    subst ht
    refine ⟨hname.symm, ?_, (Option.some.inj hforwarded).symm⟩
    rw [hoffset, ← hname, ← hspaces, hcut, ← List.append_assoc gap, ← List.append_assoc k,
      Place.offsetOf_between, List.append_assoc a]

/-- Wherever a component stands there is a hit that reads it. -/
theorem exists_site {source before gap after : Text} {c : Component} (h : c.WellFormed)
    (hplace : c.StandsIn source before gap after) :
    ∃ s ∈ sites forwardRefAt? (CommentStyle.slashes.strip source), s.found.name = c.name ∧
      s.found.nameOffset = (before ++ (gap ++ c.lead)).length ∧ s.rest = c.call ++ after := by
  have hread := forwardRefAt?_between h hplace.blank_gap hplace.startsLine after
  have hne : gap ++ (c.text ++ after) ≠ [] := by
    refine List.append_ne_nil_of_right_ne_nil _ fun hnil => ?_
    rcases head?_text c after with h | h <;> rw [hnil] at h <;> cases h
  rw [hplace.written]
  rcases mem_sites_or hne hread with hmem | ⟨a, k, found, rest, rfl, hk, hmem, hearlier, hlong⟩
  · exact ⟨_, hmem, rfl, rfl, rfl⟩
  · have hgap : gap ≠ [] := by
      rintro rfl
      rcases hplace.startsLine with hnil | hline | hline
      · exact hk (List.append_eq_nil_iff.1 hnil).2
      · cases hline
      · cases hline
    exact ⟨_, hmem, forwardRefAt?_overlap h hplace.blank_gap hgap hplace.clear hearlier hlong⟩

/-! ## The arguments -/

theorem depthAfter_argument {c : Component} (h : c.WellFormed) :
    depthAfter '(' ')' 1 c.argument = some 1 := by
  have hbody : depthAfter '(' ')' 1 (" => ".toList ++ c.body) = some 1 := by
    rw [depthAfter_append, depthAfter_of_not_mem (by decide) (by decide), Option.bind_some, h.body]
  unfold Component.argument
  rw [depthAfter, if_pos rfl, depthAfter_append, depthAfter_add h.parameters (Nat.le_refl 1) 1,
    Option.bind_some, depthAfter, if_neg (by decide), if_pos rfl, if_neg (by decide)]
  exact hbody

/-- The entry that a component is located as. -/
def Component.entry (c : Component) : Entry :=
  .arrow false false c.name ('(' :: c.parameters ++ [')']) none

theorem skips_call_iff {c : Component} (h : c.WellFormed) (after : Text) :
    (balanced '<' '>' (c.call ++ after)).2 = c.arguments ++ after ↔ ¬ fatArrow <:+: c.typeArguments := by
  have hcall : c.call ++ after = '<' :: c.typeArguments ++ '>' :: (c.arguments ++ after) := by
    simp [Component.call]
  rw [hcall]
  exact skips_typeArguments_iff h.typeArguments _

theorem componentEntry?_call {c : Component} (h : c.WellFormed)
    (harrow : ¬ fatArrow <:+: c.typeArguments) {s : Site Head} {after : Text}
    (hname : s.found.name = c.name) (hrest : s.rest = c.call ++ after) :
    componentEntry? s = some c.entry := by
  have hskip : trimStart (balanced '<' '>' s.rest).2 = c.arguments ++ after := by
    rw [hrest, (skips_call_iff h after).2 harrow]
    rfl
  have harguments : parens (c.arguments ++ after) = ('(' :: c.argument ++ [')'], [';'] ++ after) := by
    have hwritten : c.arguments ++ after = '(' :: c.argument ++ ')' :: ([';'] ++ after) := by
      simp [Component.arguments]
    rw [hwritten]
    exact balanced_of_depthAfter (depthAfter_argument h) (by decide) _
  have hfirst : c.argument.dropWhile (· ≠ '(') = c.argument := rfl
  have hparameters : parens c.argument = ('(' :: c.parameters ++ [')'], " => ".toList ++ c.body) :=
    balanced_of_depthAfter h.parameters (by decide) _
  have htail : componentTail (" => ".toList ++ c.body) = [] := rfl
  refine componentEntry?_eq_some_iff.2 ⟨c.argument, ?_, ?_, ?_⟩
  · rw [hskip, harguments, unwrap_cons_concat, hfirst]
  · rw [hparameters]
    exact List.cons_ne_nil _ _
  · rw [hparameters, htail, hname]
    rfl

/-! ## Sources -/

/-- Of a written arrow function the parameters alone can hold a marker. -/
theorem splitOwner_arrow {name : Text} (hname : isDollarName name = true) (inside : Text) :
    splitOwner (Entry.arrow false false name ('(' :: inside ++ [')']) none).fragment =
      ((Entry.arrow false false name ('(' :: (splitOwner inside).1 ++ [')']) none).fragment,
        (splitOwner inside).2) := by
  have hwritten (inside : Text) : (Entry.arrow false false name ('(' :: inside ++ [')']) none).fragment =
      ("const ".toList ++ (name ++ " = (".toList)) ++ (inside ++ ')' :: " =>".toList) := by
    simp [Entry.fragment]
  have hfree : '@' ∉ "const ".toList ++ (name ++ " = (".toList) := by
    simp [not_mem_of_isDollarName hname (show isDollarWord '@' = false by decide +kernel)]
  rw [hwritten, hwritten, splitOwner_append_of_not_mem hfree,
    splitOwner_append_cons (by decide) (by decide +kernel) inside (by decide)]

/-- The fragment of a component is read back as its signature. -/
theorem signature_entry {c : Component} (h : c.WellFormed) :
    Script.signature c.entry.fragment = .ok c.signature := by
  have hclosed : depthAfter '(' ')' 1 (splitOwner c.parameters).1 = some 1 := by
    rw [depthAfter_splitOwner, h.parameters]
  have hreturns : ∀ r ∈ (none : Option Text), r ≠ [] ∧ trim r = r := fun _ hr => nomatch hr
  have hread := signature_of_splitOwner h.name hreturns hclosed (splitOwner_arrow h.name c.parameters)
  simp only [Entry.signature, unwrap_cons_concat] at hread
  exact hread

theorem topLevelAt_nameOffset {source before gap after : Text} {c : Component} (h : c.WellFormed)
    (hplace : c.StandsIn source before gap after) :
    topLevelAt (braceDepths (CommentStyle.slashes.strip source)) (before ++ (gap ++ c.lead)).length =
      true := by
  obtain ⟨x, n, hname⟩ := List.exists_cons_of_ne_nil (all_isDollarWord h.name).1
  have hx : x ≠ '{' := by
    rintro rfl
    have hmem : '{' ∈ c.name := hname ▸ List.mem_cons_self
    exact not_mem_of_isDollarName h.name (by decide +kernel) hmem
  have hlead : '{' ∉ c.lead ∧ '}' ∉ c.lead := by
    unfold Component.lead
    cases c.isExported <;> decide
  have hwritten : before ++ (gap ++ (c.text ++ after)) =
      before ++ gap ++ (c.lead ++ x :: (n ++ ([' '] ++ '=' :: (" React.forwardRef".toList ++ c.call)) ++
        after)) := by
    simp [Component.text, Component.binding, hname]
  have htop := hplace.topLevel
  rw [hplace.written, hwritten] at htop
  rw [hplace.written, hwritten, ← List.append_assoc before]
  exact topLevelAt_append hlead.1 hlead.2 hx htop

/-- A component is found with the parameters of its arrow function when there is no arrow in its type
    arguments, and the scan over the type arguments ends behind them in no other case. -/
theorem extract_component {source before gap after : Text} {c : Component} (h : c.WellFormed)
    (hplace : c.StandsIn source before gap after) :
    ((balanced '<' '>' (c.call ++ after)).2 = c.arguments ++ after ↔
        ¬ fatArrow <:+: c.typeArguments) ∧
      (¬ fatArrow <:+: c.typeArguments → c.signature ∈ Language.typescript.extract source) := by
  refine ⟨skips_call_iff h after, fun harrow => ?_⟩
  obtain ⟨s, hs, hname, hoffset, hrest⟩ := exists_site h hplace
  have hentry : c.entry ∈ entries (CommentStyle.slashes.strip source) := by
    have htop := topLevelAt_nameOffset h hplace
    rw [← hoffset] at htop
    unfold entries bindings
    refine List.mem_append_left _ (List.mem_append_left _ (List.mem_append_right _ ?_))
    exact List.mem_filterMap.2 ⟨s, List.mem_filter.2 ⟨hs, htop⟩, componentEntry?_call h harrow hname hrest⟩
  have hsource : blank source = false := by
    have hmem : '=' ∈ CommentStyle.slashes.strip source := by
      rw [hplace.written]
      simp [Component.text, Component.binding]
    exact List.all_eq_false.2 ⟨'=', CommentStyle.mem_of_mem_strip hmem, by decide⟩
  exact mem_extract_of_entry hsource hentry ⟨c.parameters, rfl, h.parameters⟩ (signature_entry h)

/-- A component that takes a reference to an element. -/
def buttonComponent : Component where
  isExported := true
  name := "Button".toList
  typeArguments := "HTMLElement, Props<\x7b label: string \x7d>".toList
  parameters := "props: Props, ref".toList
  body := "render(props, ref)".toList

/-- A component with a function type among its type arguments. -/
def callbackComponent : Component where
  isExported := false
  name := "B".toList
  typeArguments := "D, \x7b f: () => void \x7d".toList
  parameters := "p".toList
  body := "p".toList

theorem buttonComponent_wellFormed : buttonComponent.WellFormed := by
  have hplain {t : Text} (ht : t.all (fun c => !isTypeBracket c) = true) : NestedType t := .of_all ht
  have hobject : NestedType "\x7b label: string \x7d".toList :=
    .group (o := '\x7b') (c := '\x7d') (by decide) (by decide) (hplain (t := " label: string ".toList) (by decide)) .nil
  have harguments : NestedType buttonComponent.typeArguments :=
    (hplain (t := "HTMLElement, Props".toList) (by decide)).append
      (.group (o := '<') (c := '>') (by decide) (by decide) hobject .nil)
  exact ⟨by decide, harguments, by decide, by decide⟩

theorem callbackComponent_wellFormed : callbackComponent.WellFormed := by
  have hplain {t : Text} (ht : t.all (fun c => !isTypeBracket c) = true) : NestedType t := .of_all ht
  have hfunction : NestedType " f: () => void ".toList := (hplain (t := " f: ".toList) (by decide)).append
    (.group (o := '(') (c := ')') (by decide) (by decide) .nil
      (.plain (by decide) (.arrow (hplain (t := " void ".toList) (by decide)))))
  have harguments : NestedType callbackComponent.typeArguments :=
    (hplain (t := "D, ".toList) (by decide)).append
      (.group (o := '\x7b') (c := '\x7d') (by decide) (by decide) hfunction .nil)
  exact ⟨by decide, harguments, by decide, by decide⟩

/-- A source with a component behind another constant. -/
def buttonSource : Text := "const size = 1;\n".toList ++ (buttonComponent.text ++ "\n".toList)

theorem buttonComponent_standsIn :
    buttonComponent.StandsIn buttonSource "const size = 1;".toList "\n".toList "\n".toList := by
  have hwritten : CommentStyle.slashes.strip buttonSource = buttonSource := by decide +kernel
  exact ⟨hwritten, by decide, .inr (.inl rfl), by decide +kernel, by decide⟩

theorem extract_component_buttonSource :
    ¬ fatArrow <:+: buttonComponent.typeArguments ∧
      buttonComponent.signature ∈ Language.typescript.extract buttonSource := by
  have hequals : '=' ∉ buttonComponent.typeArguments := by decide
  have harrow : ¬ fatArrow <:+: buttonComponent.typeArguments := fun hi =>
    hequals (hi.subset (show '=' ∈ fatArrow by decide))
  exact ⟨harrow, (extract_component buttonComponent_wellFormed buttonComponent_standsIn).2 harrow⟩

/-- A component that has a function type among its type arguments is not found. -/
theorem extract_callbackComponent : callbackComponent.WellFormed ∧
    callbackComponent.StandsIn (callbackComponent.text ++ "\n".toList) [] [] "\n".toList ∧
    Language.typescript.extract (callbackComponent.text ++ "\n".toList) = [] := by
  have hwritten : CommentStyle.slashes.strip (callbackComponent.text ++ "\n".toList) =
      callbackComponent.text ++ "\n".toList := by decide +kernel
  exact ⟨callbackComponent_wellFormed, ⟨hwritten, rfl, .inl rfl, by decide +kernel, by decide⟩,
    by decide +kernel⟩

end Synopsis.Script
