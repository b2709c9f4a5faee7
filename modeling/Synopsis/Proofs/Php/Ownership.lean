import Synopsis.Proofs.Php.Agreement

/-!
# PHP: each function is reported once, under its owner

Functions are looked for twice: in the body of each named type, which is a text of its own, and in the
whole text. Reports carry the offset in the whole text, so that the two searches can be compared:

* stretches of named types do not overlap, since the search goes on behind each block
  (`pairwise_typeBlocks`);
* a method stands inside the stretch of its type and directly in its braces (`reported_method`), and a
  global function in no stretch at all, so no offset is reported twice (`nodup_reports`);
* heads of functions do not overlap (`functionAt?_inside`), so every function outside the stretches is
  found (`mem_globalReports`).
-/

namespace Synopsis.Php

open Text

/-! ## Functions where they stand -/

/-- Whether an entry is a function. -/
def Entry.isFunction : Entry → Bool
  | .type _ _ => false
  | .function _ _ _ _ => true

/-- The offset at which the body of a type starts: it ends one character before the block does. -/
def bodyOffset (b : Stretch × TypeBlock) : Nat := b.1.stop - b.2.body.length - 1

/-- The functions with the given heads, each with the offset of its head in a text that has `offset`
    characters before the one searched. -/
def reportsAt (offset : Nat) (owner : Option Text) (heads : List (Site Text)) : List (Nat × Entry) :=
  heads.filterMap fun s => (function? owner s.found s.rest).map (offset + s.start, ·)

/-- The methods of a type. -/
def methodReports (b : Stretch × TypeBlock) : List (Nat × Entry) :=
  reportsAt (bodyOffset b) (some b.2.name)
    ((sites functionAt? b.2.body).filter fun s => topLevelAt (braceDepths b.2.body) s.start)

/-- The global functions of a text. -/
def globalReports (t : Text) : List (Nat × Entry) :=
  reportsAt 0 none ((sites functionAt? t).filter fun s =>
    !covered (anonymousStretches t ++ (typeBlocks t).map Prod.fst) s.start)

/-- The functions of a text, each with the offset of its head. -/
def reports (t : Text) : List (Nat × Entry) := (typeBlocks t).flatMap methodReports ++ globalReports t

/-- An offset inside an anonymous class, from the word `new` to the end of its block. -/
def InAnonymous (t : Text) (k : Nat) : Prop :=
  ∃ x y z, t = x ++ y ∧ anonymousAt? (.between x y) = some ((), z) ∧
    x.length ≤ k ∧ k < t.length - (braces z).2.length

/-- An offset inside a named type, from the start of its declaration to the end of its block. -/
def InType (t : Text) (k : Nat) : Prop := ∃ b ∈ typeBlocks t, b.1.start ≤ k ∧ k < b.1.stop

/-- `Reported t k e`: the function whose head stands at offset `k` may be reported as `e`. -/
inductive Reported (t : Text) : Nat → Entry → Prop
  /-- A method of `owner`: a declaration of `owner`, not inside an anonymous class, opens a block with
      the body `u ++ f`; the head stands at the start of `f`, and `u` closes each brace it opens. -/
  | method {x head u f w kind owner name rest params tail : Text} :
      t = x ++ (head ++ '{' :: (u ++ (f ++ w))) →
      typeHead? (.between x (head ++ '{' :: (u ++ (f ++ w)))) =
        some ((kind, owner), '{' :: (u ++ (f ++ w))) →
      ¬ InAnonymous t x.length →
      unwrap (braces ('{' :: (u ++ (f ++ w)))).1 = u ++ f →
      depthAfter '{' '}' 1 u = some 1 →
      functionAt? (.between (x ++ (head ++ '{' :: u)) (f ++ w)) = some (name, rest ++ w) →
      group? rest = some (params, tail) →
      Reported t (x ++ (head ++ '{' :: u)).length
        (.function name (collapse params) (returnText? tail) (some owner))
  /-- A global function, outside of all named types and anonymous classes. -/
  | global {a b name rest params tail : Text} :
      t = a ++ b → functionAt? (.between a b) = some (name, rest) →
      ¬ InAnonymous t a.length → ¬ InType t a.length → group? rest = some (params, tail) →
      Reported t a.length (.function name (collapse params) (returnText? tail) none)

/-! ## Heads of functions -/

/-- What may stand between the word `function` and a name: blanks, and at most one `&` behind some. -/
def IsGap (g : Text) : Prop :=
  ∃ b, b ≠ [] ∧ blank b = true ∧ (g = b ∨ ∃ b', blank b' = true ∧ g = b ++ '&' :: b')

theorem notBefore_isBlank_of_isName {n : Text} (h : isName n = true) (t : Text) :
    notBefore isBlank (n ++ t) = true := (isWordRun_of_isName h).notBefore_isBlank t

theorem trimStart_name {n : Text} (h : isName n = true) (t : Text) : trimStart (n ++ t) = n ++ t := by
  refine trimStart_eq_self ?_
  have hnot := notBefore_isBlank_of_isName h t
  simpa [notBefore] using hnot

theorem notBefore_isWord_of_blank {k t : Text} (hk : blank k = true) (ht : notBefore isWord t = true) :
    notBefore isWord (k ++ t) = true := by
  cases k with
  | nil => exact ht
  | cons c k =>
    have hc : isWord c = false := isWord_of_blank (Bool.and_eq_true_iff.1 hk).1
    simp [notBefore, hc]

theorem trimStart_blank_paren {k : Text} (hk : blank k = true) (v : Text) :
    trimStart (k ++ '(' :: v) = '(' :: v := by
  rw [trimStart_append_of_blank hk]
  rfl

theorem all_not_isWord_of_blank {b : Text} (hb : blank b = true) : b.all (!isWord ·) = true := by
  refine List.all_eq_true.2 fun c hc => ?_
  rw [isWord_of_blank (List.all_eq_true.1 hb c hc)]
  rfl

/-- `IsHead name rest t`: the head of a function with its name stands at the front of `t`, up to the
    parenthesis with which `rest` starts. -/
def IsHead (name rest t : Text) : Prop :=
  isName name = true ∧ rest.head? = some '(' ∧ ∃ g k, IsGap g ∧ blank k = true ∧
    t = "function".toList ++ (g ++ (name ++ (k ++ rest)))

theorem isHead_of_functionAt? {p : Place} {name rest : Text} (h : functionAt? p = some (name, rest)) :
    p.isWordStart = true ∧ IsHead name rest p.rest := by
  rw [functionAt?] at h
  split at h
  · cases h
  · next hstart =>
    obtain ⟨t, ht, h⟩ := Option.bind_eq_some_iff.1 h
    obtain ⟨⟨name', u⟩, hname, h⟩ := Option.bind_eq_some_iff.1 h
    obtain ⟨v, hv, h⟩ := Option.bind_eq_some_iff.1 h
    obtain ⟨rfl, rfl⟩ := Prod.mk.inj (Option.some.inj h)
    obtain ⟨hv, hparen⟩ := ahead?_eq_some.1 hv
    obtain ⟨b, hne, hb, hrest⟩ := eq_append_of_keyword? ht
    obtain ⟨k, hk, hu, -⟩ := exists_trimStart u
    have hcut := (eq_append_of_nameOf? hname).1
    refine ⟨by simpa using hstart, isName_of_name? hname, hv ▸ hparen, ?_⟩
    obtain ⟨b', hb', hw, -⟩ := exists_trimStart ((char? '&' t).getD t)
    rw [hcut, hu, hv] at hw
    cases hchar : char? '&' t with
    | none =>
      rw [hchar, Option.getD_none] at hw
      refine ⟨b ++ b', k, ⟨b ++ b', by simp [hne], by simp [hb, hb'], .inl rfl⟩, hk, ?_⟩
      rw [hrest, hw, List.append_assoc b]
    | some w =>
      rw [hchar, Option.getD_some] at hw
      refine ⟨b ++ '&' :: b', k, ⟨b, hne, hb, .inr ⟨b', hb', rfl⟩⟩, hk, ?_⟩
      rw [hrest, after?_eq_some.1 hchar, hw, List.append_assoc b]
      rfl

/-- Behind the word `function` a gap is skipped whole. -/
theorem exists_keyword?_gap {g n : Text} (hg : IsGap g) (hn : isName n = true) (t : Text) :
    ∃ u, keyword? "function" ("function".toList ++ (g ++ (n ++ t))) = some u ∧
      trimStart ((char? '&' u).getD u) = n ++ t := by
  obtain ⟨b, hne, hb, rfl | ⟨b', hb', rfl⟩⟩ := hg
  · refine ⟨n ++ t, keywordBy?_run _ hne hb (notBefore_isBlank_of_isName hn t), ?_⟩
    have hchar : char? '&' (n ++ t) = none := by
      refine after?_eq_none_of_head (c := '&') rfl ?_
      obtain ⟨c, hc, hword⟩ := (isWordRun_of_isName hn).head?
      rw [List.head?_append, hc]
      rintro ⟨⟩
      cases hword
    rw [hchar, Option.getD_none, trimStart_name hn]
  · refine ⟨'&' :: (b' ++ (n ++ t)), ?_, ?_⟩
    · rw [List.append_assoc, List.cons_append]
      exact keywordBy?_run _ hne hb rfl
    · have hchar : char? '&' ('&' :: (b' ++ (n ++ t))) = some (b' ++ (n ++ t)) := after?_append ['&'] _
      rw [hchar, Option.getD_some, trimStart_append_of_blank hb', trimStart_name hn]

theorem functionAt?_of_isHead {p : Place} {name rest : Text} (hstart : p.isWordStart = true)
    (h : IsHead name rest p.rest) : functionAt? p = some (name, rest) := by
  obtain ⟨hname, hparen, g, k, hg, hk, hrest⟩ := h
  obtain ⟨v, rfl⟩ := List.head?_eq_some_iff.1 hparen
  obtain ⟨u, hkeyword, hu⟩ := exists_keyword?_gap hg hname (k ++ '(' :: v)
  have hstop : notBefore isWord (k ++ '(' :: v) = true := notBefore_isWord_of_blank hk rfl
  rw [functionAt?, hstart, hrest, hkeyword]
  simp only [Option.bind_eq_bind, Option.bind_some, hu, name?_append hname hstop,
    trimStart_blank_paren hk, ahead?]
  rfl

/-- A head in a part of a text is one in the text. -/
theorem functionAt?_extend {p q : Place} {name rest w : Text} (h : functionAt? p = some (name, rest))
    (hq : q.isWordStart = p.isWordStart) (hrest : q.rest = p.rest ++ w) :
    functionAt? q = some (name, rest ++ w) := by
  obtain ⟨hstart, hname, hparen, g, k, hg, hk, hp⟩ := isHead_of_functionAt? h
  obtain ⟨v, rfl⟩ := List.head?_eq_some_iff.1 hparen
  refine functionAt?_of_isHead (hq.trans hstart) ⟨hname, rfl, g, k, hg, hk, ?_⟩
  rw [hrest, hp]
  simp only [List.append_assoc]

theorem all_not_isWord_of_isGap {g : Text} (h : IsGap g) : g.all (!isWord ·) = true := by
  obtain ⟨b, -, hb, rfl | ⟨b', hb', rfl⟩⟩ := h
  · exact all_not_isWord_of_blank hb
  · rw [List.all_append, List.all_cons, all_not_isWord_of_blank hb, all_not_isWord_of_blank hb']
    rfl

/-- Behind the blanks of a gap there is no parenthesis. -/
theorem head?_trimStart_gap {g n : Text} (hg : IsGap g) (hn : isName n = true) (t : Text) :
    (trimStart (g ++ (n ++ t))).head? ≠ some '(' := by
  obtain ⟨b, -, hb, rfl | ⟨b', -, rfl⟩⟩ := hg
  · rw [trimStart_append_of_blank hb, trimStart_name hn]
    obtain ⟨c, hc, hword⟩ := (isWordRun_of_isName hn).head?
    rw [List.head?_append, hc]
    rintro ⟨⟩
    cases hword
  · rw [List.append_assoc, trimStart_append_of_blank hb]
    simp [trimStart, isBlank]

/-- No head stands where the name of another does: its own name would have to be a parenthesis. -/
theorem not_isHead_name {name k rest name' rest' : Text} (hname : isName name = true)
    (hk : blank k = true) (hrest : rest.head? = some '(') :
    ¬ IsHead name' rest' (name ++ (k ++ rest)) := by
  rintro ⟨hname', -, g, k', hg, -, hcut⟩
  obtain ⟨v, rfl⟩ := List.head?_eq_some_iff.1 hrest
  have hstop : notBefore isWord (k ++ '(' :: v) = true := notBefore_isWord_of_blank hk rfl
  have hstop' : notBefore isWord (g ++ (name' ++ (k' ++ rest'))) = true := by
    obtain ⟨b, hne, hb, hg⟩ := hg
    obtain ⟨c, u, rfl⟩ := List.exists_cons_of_ne_nil hne
    have hc : isWord c = false := isWord_of_blank (Bool.and_eq_true_iff.1 hb).1
    rcases hg with rfl | ⟨b', -, rfl⟩ <;> simp [notBefore, hc]
  have hleft := (takeWhile_append_of_all (all_isWord_of_isName hname) hstop).2
  have hright := (takeWhile_append_of_all (r := "function".toList) (by decide) hstop').2
  have hopen := trimStart_blank_paren hk v
  rw [hcut, hright] at hleft
  rw [← hleft] at hopen
  exact head?_trimStart_gap hg hname' (k' ++ rest') (by rw [hopen]; rfl)

/-- No head starts inside another. -/
theorem functionAt?_inside {a c b name rest : Text} (hc : c ≠ [])
    (h : functionAt? (.between a (c ++ b)) = some (name, rest)) (hlt : rest.length < b.length) :
    functionAt? (.between (a ++ c) b) = none := by
  cases hb : functionAt? (.between (a ++ c) b) with
  | none => rfl
  | some hit =>
    obtain ⟨-, hname, hparen, g, k, hg, hk, hcut⟩ := isHead_of_functionAt? h
    obtain ⟨hstart, hhead⟩ := isHead_of_functionAt? hb
    have hlast : c.getLast?.any isWord = false := by
      have hprev := (getLast?_of_suffix (List.suffix_append a c) hc).symm
      simpa [Place.between, Place.isWordStart, notAfter, hprev] using hstart
    have hword : b ≠ [] ∧ b.head?.any (!isWord ·) = false := by
      obtain ⟨-, -, g', k', -, -, hrest⟩ := hhead
      have hb : b = _ := hrest
      rw [hb]
      exact ⟨List.cons_ne_nil _ _, rfl⟩
    -- The head starts behind no word character and with one, so it starts at a word of the other.
    obtain ⟨c₁, rfl, h₁⟩ := exists_append_of_getLast? (u := "function".toList) (by decide) hc hlast hcut
    obtain ⟨c₂, rfl, h₂⟩ := exists_append_of_head? (all_not_isWord_of_isGap hg) hword.1 hword.2 h₁.symm
    by_cases hempty : c₂ = []
    · subst hempty
      have hplace : name ++ (k ++ rest) = b := h₂
      rw [← hplace] at hhead
      exact absurd hhead (not_isHead_name hname hk hparen)
    · have hlast₂ : c₂.getLast?.any isWord = false := by
        have hsuffix := (List.suffix_append g c₂).trans (List.suffix_append "function".toList (g ++ c₂))
        rwa [← getLast?_of_suffix hsuffix hempty] at hlast
      obtain ⟨c₃, rfl, h₃⟩ :=
        exists_append_of_getLast? (all_isWord_of_isName hname) hempty hlast₂ h₂.symm
      obtain ⟨c₄, rfl, h₄⟩ :=
        exists_append_of_head? (all_not_isWord_of_blank hk) hword.1 hword.2 h₃.symm
      rw [h₄, List.length_append] at hlt
      omega

/-- Every head of a function is found. -/
theorem mem_sites_functionAt? {a b name rest : Text}
    (h : functionAt? (.between a b) = some (name, rest)) :
    ⟨a.length, name, rest⟩ ∈ sites functionAt? (a ++ b) := by
  have hb : b ≠ [] := by
    rintro rfl
    obtain ⟨-, -, -, g, k, -, -, hcut⟩ := isHead_of_functionAt? h
    cases hcut
  rcases mem_sites_or hb h with hmem | ⟨a', c, found, r, rfl, hc, -, hread, hlt⟩
  · exact hmem
  · rw [functionAt?_inside hc hread hlt] at h
    cases h

/-! ## Stretches -/

theorem covered_append (xs ys : List Stretch) (k : Nat) :
    covered (xs ++ ys) k = (covered xs k || covered ys k) := List.any_append

theorem covered_iff {spans : List Stretch} {k : Nat} :
    covered spans k = true ↔ ∃ s ∈ spans, s.start ≤ k ∧ k < s.stop := by
  simp [covered]

theorem eq_append_of_toBrace? {t z : Text} (h : toBrace? t = some z) :
    ∃ m, t = m ++ z ∧ '{' ∉ m ∧ z.head? = some '{' := by
  obtain ⟨rfl, hhead⟩ := ahead?_eq_some.1 h
  refine ⟨t.takeWhile fun c => c ≠ '{' && c ≠ ';', List.takeWhile_append_dropWhile.symm, ?_, hhead⟩
  exact not_mem_of_all List.all_takeWhile (by simp)

/-- The head of an anonymous class goes up to the first brace. -/
theorem eq_append_of_anonymousAt? {p : Place} {z : Text} (h : anonymousAt? p = some ((), z)) :
    ∃ m, p.rest = m ++ z ∧ '{' ∉ m ∧ z.head? = some '{' := by
  rw [anonymousAt?] at h
  split at h
  · cases h
  · obtain ⟨t, ht, h⟩ := Option.bind_eq_some_iff.1 h
    obtain ⟨u, hu, h⟩ := Option.bind_eq_some_iff.1 h
    obtain ⟨v, hv, h⟩ := Option.bind_eq_some_iff.1 h
    obtain ⟨-, rfl⟩ := Prod.mk.inj (Option.some.inj h)
    obtain ⟨b, -, hb, hrest⟩ := eq_append_of_keyword? ht
    have hclass := after?_eq_some.1 (Option.filter_eq_some_iff.1 hu).1
    obtain ⟨m, hm, hnot, hhead⟩ := eq_append_of_toBrace? hv
    have hblank : '{' ∉ b := not_mem_of_all hb (by decide)
    refine ⟨"new".toList ++ (b ++ ("class".toList ++ m)), ?_, ?_, hhead⟩
    · rw [hrest, hclass, hm]
      simp only [List.append_assoc]
    · simp [hblank, hnot]

theorem eq_of_first {x : Char} {e m u v : Text} (he : x ∉ e) (hm : x ∉ m)
    (h : e ++ x :: u = m ++ x :: v) : e = m ∧ u = v := by
  have hcut := cutAt?_append he u
  rw [h, cutAt?_append hm v] at hcut
  obtain ⟨rfl, rfl⟩ := Prod.mk.inj (Option.some.inj hcut)
  exact ⟨rfl, rfl⟩

/-- An anonymous class whose head starts inside the head of another has the same brace. -/
theorem brace_of_anonymousAt? {a c b z z' : Text}
    (h : anonymousAt? (.between (a ++ c) b) = some ((), z))
    (h' : anonymousAt? (.between a (c ++ b)) = some ((), z')) (hlt : (z'.drop 1).length < b.length) :
    z = z' := by
  obtain ⟨m, hm, hnot, hhead⟩ := eq_append_of_anonymousAt? h
  obtain ⟨m', hm', hnot', hhead'⟩ := eq_append_of_anonymousAt? h'
  obtain ⟨v, rfl⟩ := List.head?_eq_some_iff.1 hhead
  obtain ⟨v', rfl⟩ := List.head?_eq_some_iff.1 hhead'
  have hb : b = m ++ '{' :: v := hm
  have hcut : c ++ b = m' ++ '{' :: v' := hm'
  rcases List.append_eq_append_iff.1 hcut with ⟨e, rfl, he⟩ | ⟨e, rfl, he⟩
  · have hnote : '{' ∉ e := fun hmem => hnot' (List.mem_append_right c hmem)
    rw [(eq_of_first hnot hnote (hb.symm.trans he)).2]
  · cases e with
    | nil => rw [(eq_of_first hnot List.not_mem_nil (hb.symm.trans he.symm)).2]
    | cons x e =>
      have hv : v' = e ++ b := (List.cons.inj he).2
      rw [List.drop_one, List.tail_cons, hv, List.length_append] at hlt
      omega

/-- An anonymous class with the text from its brace on. The search goes on behind the brace. -/
def anonymousSite? (p : Place) : Option (Text × Text) :=
  (anonymousAt? p).map fun (_, z) => (z, z.drop 1)

theorem anonymousSite?_eq_some {p : Place} {z rest : Text} :
    anonymousSite? p = some (z, rest) ↔ anonymousAt? p = some ((), z) ∧ rest = z.drop 1 := by
  unfold anonymousSite?
  constructor
  · intro h
    obtain ⟨⟨⟨⟩, z'⟩, hz, he⟩ := Option.map_eq_some_iff.1 h
    obtain ⟨rfl, rfl⟩ := Prod.mk.inj he
    exact ⟨hz, rfl⟩
  · rintro ⟨hz, rfl⟩
    rw [hz]
    rfl

/-- The stretches of the anonymous classes cover what is inside an anonymous class. -/
theorem covered_anonymousStretches {t : Text} {k : Nat} :
    covered (anonymousStretches t) k = true ↔ InAnonymous t k := by
  have hstretches : anonymousStretches t =
      (sites anonymousSite? t).map fun s => blockStretch t.length s.start s.found := rfl
  rw [covered_iff, hstretches]
  constructor
  · rintro ⟨s, hs, hle, hlt⟩
    obtain ⟨s', hs', rfl⟩ := List.mem_map.1 hs
    obtain ⟨a, b, rfl, hstart, hread⟩ := exists_cut_of_mem_sites hs'
    refine ⟨a, b, s'.found, rfl, (anonymousSite?_eq_some.1 hread).1, ?_, hlt⟩
    rw [← hstart]
    exact hle
  · rintro ⟨x, y, z, rfl, hz, hle, hlt⟩
    have hy : y ≠ [] := by
      obtain ⟨m, hm, -, hhead⟩ := eq_append_of_anonymousAt? hz
      obtain ⟨v, rfl⟩ := List.head?_eq_some_iff.1 hhead
      have hm : y = m ++ '{' :: v := hm
      simp [hm]
    have hread := anonymousSite?_eq_some.2 ⟨hz, rfl⟩
    rcases mem_sites_or hy hread with hmem | ⟨a, c, z', r, rfl, -, hmem, hread', hshort⟩
    · exact ⟨_, List.mem_map_of_mem hmem, hle, hlt⟩
    · -- The head stands in that of an earlier class, which ends where this one does.
      obtain ⟨hz', rfl⟩ := anonymousSite?_eq_some.1 hread'
      obtain rfl := brace_of_anonymousAt? hz hz' hshort
      refine ⟨_, List.mem_map_of_mem hmem, ?_, hlt⟩
      rw [List.length_append] at hle
      exact Nat.le_of_add_right_le hle

theorem covered_typeBlocks {t : Text} {k : Nat} :
    covered ((typeBlocks t).map Prod.fst) k = true ↔ InType t k := by
  rw [covered_iff]
  constructor
  · rintro ⟨s, hs, hcovers⟩
    obtain ⟨b, hb, rfl⟩ := List.mem_map.1 hs
    exact ⟨b, hb, hcovers⟩
  · rintro ⟨b, hb, hcovers⟩
    exact ⟨b.1, List.mem_map_of_mem hb, hcovers⟩

theorem not_covered_iff {t : Text} {k : Nat} :
    covered (anonymousStretches t ++ (typeBlocks t).map Prod.fst) k = false ↔
      ¬ InAnonymous t k ∧ ¬ InType t k := by
  rw [covered_append, Bool.or_eq_false_iff, Bool.eq_false_iff, Bool.eq_false_iff, ne_eq, ne_eq,
    covered_anonymousStretches, covered_typeBlocks]

/-! ## Blocks of named types -/

theorem suffix_of_typeHead? {p : Place} {found : Text × Text} {z : Text}
    (h : typeHead? p = some (found, z)) : z <:+ p.rest ∧ z.head? = some '{' := by
  rw [typeHead?] at h
  split at h
  · cases h
  · obtain ⟨⟨kind, t⟩, ht, h⟩ := Option.bind_eq_some_iff.1 h
    obtain ⟨⟨name, u⟩, hu, h⟩ := Option.bind_eq_some_iff.1 h
    obtain ⟨v, hv, h⟩ := Option.bind_eq_some_iff.1 h
    obtain ⟨-, rfl⟩ := Prod.mk.inj (Option.some.inj h)
    obtain ⟨word, -, hword⟩ := List.exists_of_findSome?_eq_some ht
    obtain ⟨t', ht', he⟩ := Option.map_eq_some_iff.1 hword
    obtain ⟨-, rfl⟩ := Prod.mk.inj he
    obtain ⟨m, rfl, -, hhead⟩ := eq_append_of_toBrace? hv
    refine ⟨?_, hhead⟩
    have hname := (List.suffix_append m v).trans (suffix_of_name? hu)
    exact (hname.trans (suffix_of_keywordBy? ht')).trans (suffix_skipKeywords modifiers p.rest)

/-- A named type is declared outside the anonymous classes, and its stretch goes from the start of the
    declaration to the end of its block. -/
theorem exists_declaration {t : Text} {b : Stretch × TypeBlock} (h : b ∈ typeBlocks t) :
    ∃ x head z, t = x ++ (head ++ '{' :: z) ∧
      typeHead? (.between x (head ++ '{' :: z)) = some ((b.2.kind, b.2.name), '{' :: z) ∧
      ¬ InAnonymous t x.length ∧ b.1.start = x.length ∧
      b.1.stop = t.length - (braces ('{' :: z)).2.length ∧ b.2.body = unwrap (braces ('{' :: z)).1 := by
  obtain ⟨s, hs, h⟩ := List.mem_filterMap.1 h
  obtain ⟨block, hfound, rfl⟩ := Option.map_eq_some_iff.1 h
  obtain ⟨x, y, rfl, hstart, hread⟩ := exists_cut_of_mem_sites hs
  rw [hfound, typeAt?] at hread
  obtain ⟨⟨⟨kind, name⟩, z⟩, hhead, hread⟩ := Option.bind_eq_some_iff.1 hread
  simp only at hread
  split at hread
  · cases hread
  · next hcovered =>
    obtain ⟨hblock, hrest⟩ := Prod.mk.inj (Option.some.inj hread)
    obtain rfl := Option.some.inj hblock
    obtain ⟨⟨head, hy⟩, hbrace⟩ := suffix_of_typeHead? hhead
    obtain ⟨z, rfl⟩ := List.head?_eq_some_iff.1 hbrace
    have hy : head ++ '{' :: z = y := hy
    subst hy
    refine ⟨x, head, z, rfl, hhead, ?_, hstart, ?_, rfl⟩
    · rw [← covered_anonymousStretches]
      exact hcovered
    · rw [hrest]

/-- The search for named types goes on behind each block, so their stretches do not overlap. -/
theorem pairwise_typeBlocks (t : Text) :
    (typeBlocks t).Pairwise fun b b' => b.1.stop ≤ b'.1.start := by
  unfold typeBlocks
  rw [List.pairwise_filterMap]
  refine (pairwise_sites t).imp fun {s s'} hs b hb b' hb' => ?_
  obtain ⟨_, -, rfl⟩ := Option.map_eq_some_iff.1 hb
  obtain ⟨_, -, rfl⟩ := Option.map_eq_some_iff.1 hb'
  exact hs.2

/-! ## Reports -/

theorem mem_reportsAt {offset : Nat} {owner : Option Text} {heads : List (Site Text)} {k : Nat}
    {e : Entry} : (k, e) ∈ reportsAt offset owner heads ↔
      ∃ s ∈ heads, function? owner s.found s.rest = some e ∧ k = offset + s.start := by
  unfold reportsAt
  rw [List.mem_filterMap]
  constructor
  · rintro ⟨s, hs, h⟩
    obtain ⟨e', he, h⟩ := Option.map_eq_some_iff.1 h
    obtain ⟨rfl, rfl⟩ := Prod.mk.inj h
    exact ⟨s, hs, he, rfl⟩
  · rintro ⟨s, hs, he, rfl⟩
    exact ⟨s, hs, by rw [he]; rfl⟩

theorem map_snd_reportsAt (offset : Nat) (owner : Option Text) (heads : List (Site Text)) :
    (reportsAt offset owner heads).map Prod.snd =
      heads.filterMap fun s => function? owner s.found s.rest := by
  unfold reportsAt
  rw [List.map_filterMap]
  congr 1
  funext s
  rw [Option.map_map]
  exact Option.map_id_apply

theorem nodup_reportsAt {offset : Nat} {owner : Option Text} {heads : List (Site Text)}
    (h : heads.Pairwise fun s s' => s.start < s'.start) :
    ((reportsAt offset owner heads).map Prod.fst).Nodup := by
  unfold reportsAt
  rw [List.map_filterMap, List.Nodup, List.pairwise_filterMap]
  refine h.imp fun {s s'} hs k hk k' hk' => ?_
  obtain ⟨p, hp, rfl⟩ := Option.map_eq_some_iff.1 hk
  obtain ⟨p', hp', rfl⟩ := Option.map_eq_some_iff.1 hk'
  obtain ⟨e, -, rfl⟩ := Option.map_eq_some_iff.1 hp
  obtain ⟨e', -, rfl⟩ := Option.map_eq_some_iff.1 hp'
  show offset + s.start ≠ offset + s'.start
  omega

theorem filter_isFunction_filterMap (owner : Option Text) (heads : List (Site Text)) :
    (heads.filterMap fun s => function? owner s.found s.rest).filter Entry.isFunction =
      heads.filterMap fun s => function? owner s.found s.rest := by
  refine List.filter_eq_self.2 fun e he => ?_
  obtain ⟨s, -, h⟩ := List.mem_filterMap.1 he
  obtain ⟨params, tail, -, rfl⟩ := function?_eq_some_iff.1 h
  rfl

/-- The reports are the functions among the entries, in the same order. -/
theorem map_snd_reports (t : Text) : (reports t).map Prod.snd = (entries t).filter Entry.isFunction := by
  have hmethods (b : Stretch × TypeBlock) :
      (methodReports b).map Prod.snd = b.2.entries.filter Entry.isFunction := by
    show _ = (Entry.type b.2.kind b.2.name :: methods b.2.name b.2.body).filter Entry.isFunction
    rw [methodReports, map_snd_reportsAt, List.filter_cons_of_neg Bool.false_ne_true]
    exact (filter_isFunction_filterMap _ _).symm
  unfold reports entries globalReports
  rw [List.map_append, List.map_flatMap, map_snd_reportsAt, List.filter_append, List.filter_flatMap,
    filter_isFunction_filterMap]
  simp only [hmethods]

theorem isWordStart_behind_brace (a u f w : Text) :
    (Place.between (a ++ '{' :: u) (f ++ w)).isWordStart = (Place.between u f).isWordStart := by
  show notAfter isWord (a ++ '{' :: u).getLast? = notAfter isWord u.getLast?
  rw [List.getLast?_append, List.getLast?_cons]
  cases u.getLast? <;> rfl

/-- A method stands inside the stretch of its type, directly in its braces. -/
theorem reported_method {t : Text} {b : Stretch × TypeBlock} (hb : b ∈ typeBlocks t) {k : Nat}
    {e : Entry} (h : (k, e) ∈ methodReports b) : Reported t k e ∧ b.1.start ≤ k ∧ k < b.1.stop := by
  obtain ⟨x, head, z, ht, hhead, hhidden, hstart, hstop, hbody⟩ := exists_declaration hb
  obtain ⟨s, hs, he, hk⟩ := mem_reportsAt.1 h
  obtain ⟨hs, htop⟩ := List.mem_filter.1 hs
  obtain ⟨u, f, hcut, hoffset, hread⟩ := exists_cut_of_mem_sites hs
  obtain ⟨-, -, -, g, m, -, -, hf⟩ := isHead_of_functionAt? hread
  have hf : f = _ := hf
  have hfirst : f.head? = some 'f' := by
    rw [hf]
    rfl
  have hne : unwrap (braces ('{' :: z)).1 ≠ [] := by
    rw [← hbody, hcut, hf]
    simp
  obtain ⟨⟨c, hz⟩, d, hd⟩ := exists_inside_of_balanced (by decide) hne
  rw [show balanced '{' '}' ('{' :: z) = braces ('{' :: z) from rfl, ← hbody, hcut] at hz hd
  rw [hoffset, hcut] at htop
  have hdepth : depthAfter '{' '}' 1 u = some 1 := depthAfter_of_topLevelAt hd hfirst (by decide) htop
  generalize hw : c :: (braces ('{' :: z)).2 = w at hz
  rw [List.append_assoc] at hz
  subst hz
  have hsize := congrArg List.length ht
  have hrest := congrArg List.length hw
  simp only [List.length_append, List.length_cons] at hsize hrest
  have hplace : k = (x ++ (head ++ '{' :: u)).length := by
    rw [hk, bodyOffset, hoffset, hstop, hcut]
    simp only [List.length_append, List.length_cons]
    omega
  have hfound : functionAt? (.between (x ++ (head ++ '{' :: u)) (f ++ w)) =
      some (s.found, s.rest ++ w) := by
    refine functionAt?_extend hread ?_ rfl
    rw [← List.append_assoc]
    exact isWordStart_behind_brace (x ++ head) u f w
  have hinside : unwrap (braces ('{' :: (u ++ (f ++ w)))).1 = u ++ f := hbody.symm.trans hcut
  refine ⟨?_, ?_, ?_⟩
  · obtain ⟨params, tail, hgroup, rfl⟩ := function?_eq_some_iff.1 he
    rw [hplace]
    exact .method ht hhead hhidden hinside hdepth hfound hgroup
  · rw [hstart, hplace, List.length_append]
    exact Nat.le_add_right _ _
  · have hpos : 0 < f.length := List.length_pos_iff.2 fun he => by rw [he] at hfirst; cases hfirst
    rw [hplace, hstop]
    simp only [List.length_append, List.length_cons]
    omega

theorem reported_global {t : Text} {k : Nat} {e : Entry} (h : (k, e) ∈ globalReports t) :
    Reported t k e ∧ ¬ InType t k := by
  obtain ⟨s, hs, he, hk⟩ := mem_reportsAt.1 h
  obtain ⟨hs, hfree⟩ := List.mem_filter.1 hs
  obtain ⟨a, b, rfl, hstart, hread⟩ := exists_cut_of_mem_sites hs
  rw [Bool.not_eq_true', not_covered_iff, hstart] at hfree
  obtain ⟨params, tail, hgroup, rfl⟩ := function?_eq_some_iff.1 he
  rw [hk, hstart, Nat.zero_add]
  exact ⟨.global rfl hread hfree.1 hfree.2 hgroup, hfree.2⟩

/-- Every function outside of all types and anonymous classes is reported as a global one. -/
theorem mem_globalReports {a b name rest params tail : Text}
    (h : functionAt? (.between a b) = some (name, rest)) (hanonymous : ¬ InAnonymous (a ++ b) a.length)
    (htype : ¬ InType (a ++ b) a.length) (hgroup : group? rest = some (params, tail)) :
    (a.length, .function name (collapse params) (returnText? tail) none) ∈ globalReports (a ++ b) := by
  have he : function? none name rest =
      some (.function name (collapse params) (returnText? tail) none) :=
    function?_eq_some_iff.2 ⟨params, tail, hgroup, rfl⟩
  have hmem := mem_sites_functionAt? h
  refine mem_reportsAt.2 ⟨⟨a.length, name, rest⟩, List.mem_filter.2 ⟨hmem, ?_⟩, he, ?_⟩
  · rw [Bool.not_eq_true', not_covered_iff]
    exact ⟨hanonymous, htype⟩
  · exact (Nat.zero_add _).symm

theorem reported_of_mem_reports {t : Text} {k : Nat} {e : Entry} (h : (k, e) ∈ reports t) :
    Reported t k e := by
  rcases List.mem_append.1 h with h | h
  · obtain ⟨b, hb, h⟩ := List.mem_flatMap.1 h
    exact (reported_method hb h).1
  · exact (reported_global h).1

/-- No two reports are of the same head. -/
theorem nodup_reports (t : Text) : ((reports t).map Prod.fst).Nodup := by
  have hheads (u : Text) (p : Site Text → Bool) :
      ((sites functionAt? u).filter p).Pairwise fun s s' => s.start < s'.start :=
    ((pairwise_sites u).imp fun h => h.1).filter p
  have hstretch {b : Stretch × TypeBlock} (hb : b ∈ typeBlocks t) {k : Nat}
      (hk : k ∈ (methodReports b).map Prod.fst) : b.1.start ≤ k ∧ k < b.1.stop := by
    obtain ⟨⟨k, e⟩, hmem, rfl⟩ := List.mem_map.1 hk
    exact (reported_method hb hmem).2
  unfold reports
  rw [List.map_append, List.nodup_append]
  refine ⟨?_, nodup_reportsAt (hheads t _), ?_⟩
  · rw [List.map_flatMap, List.Nodup, List.pairwise_flatMap]
    refine ⟨fun b _ => nodup_reportsAt (hheads b.2.body _), ?_⟩
    refine (pairwise_typeBlocks t).imp_of_mem fun {b b'} hb hb' hdisjoint k hk k' hk' => ?_
    have hbefore := (hstretch hb hk).2
    have hbehind := (hstretch hb' hk').1
    omega
  · intro k hk k' hk'
    obtain ⟨⟨k, e⟩, hmem, rfl⟩ := List.mem_map.1 hk
    obtain ⟨⟨k', e'⟩, hmem', rfl⟩ := List.mem_map.1 hk'
    obtain ⟨b, hb, hmem⟩ := List.mem_flatMap.1 hmem
    rintro rfl
    exact (reported_global hmem').2 ⟨b, hb, (reported_method hb hmem).2⟩

/-! ## Sources -/

/-- Of every source, each function is reported at most once: as a method of a type only where it stands
    directly in the braces of that type, declared outside the anonymous classes, and as a global function
    only outside of all types and anonymous classes. There every function is reported whose list of
    parameters is closed. -/
theorem functions_reported_once (source : Text) {t : Text}
    (ht : t = CommentStyle.slashesAndHash.strip source) :
    fragments source = distinct ((entries t).map Entry.fragment) ∧
      (entries t).filter Entry.isFunction = (reports t).map Prod.snd ∧
      ((reports t).map Prod.fst).Nodup ∧
      (∀ k e, (k, e) ∈ reports t → Reported t k e) ∧
      ∀ a b name rest params tail, t = a ++ b → functionAt? (.between a b) = some (name, rest) →
        ¬ InAnonymous t a.length → ¬ InType t a.length → group? rest = some (params, tail) →
        (a.length, .function name (collapse params) (returnText? tail) none) ∈ reports t := by
  refine ⟨?_, (map_snd_reports t).symm, nodup_reports t, fun k e => reported_of_mem_reports, ?_⟩
  · rw [ht]
    rfl
  · rintro a b name rest params tail rfl hread hanonymous htype hgroup
    exact List.mem_append_right _ (mem_globalReports hread hanonymous htype hgroup)

/-- A class with a function inside a method, and a type inside an anonymous class. -/
def shopTypes : Text :=
  ("class A \x7b function f($x) \x7b function g() \x7b \x7d \x7d \x7d " ++
    "new class \x7b class B \x7b function m() \x7b \x7d \x7d \x7d; ").toList

/-- A global function with the name of a method. -/
def shopFunction : Text := "function f($x) \x7b \x7d".toList

/-- Both functions `f` are reported, one as a method and one as a global function. What is declared in a
    method or in the anonymous class is not. -/
theorem functions_reported_once_shopSource :
    fragments (shopTypes ++ shopFunction) =
        ["class A".toList, "function f($x) /*__CLASS:A__*/".toList, "function f($x)".toList] ∧
      (reports (shopTypes ++ shopFunction)).map Prod.fst = [10, 92] ∧
      Reported (shopTypes ++ shopFunction) 10 (.function "f".toList "$x".toList none (some "A".toList)) ∧
      (shopTypes.length, .function "f".toList "$x".toList none none) ∈
        reports (shopTypes ++ shopFunction) := by
  have hstrip : shopTypes ++ shopFunction =
      CommentStyle.slashesAndHash.strip (shopTypes ++ shopFunction) := by decide +kernel
  obtain ⟨hfragments, -, -, hplaced, hglobal⟩ :=
    functions_reported_once (shopTypes ++ shopFunction) hstrip
  have hreports : reports (shopTypes ++ shopFunction) =
      [(10, .function "f".toList "$x".toList none (some "A".toList)),
        (92, .function "f".toList "$x".toList none none)] := by decide +kernel
  have hfree := not_covered_iff.1 (show covered (anonymousStretches (shopTypes ++ shopFunction) ++
    (typeBlocks (shopTypes ++ shopFunction)).map Prod.fst) shopTypes.length = false by decide +kernel)
  refine ⟨by rw [hfragments]; decide +kernel, by rw [hreports]; rfl,
    hplaced 10 _ (by rw [hreports]; exact List.mem_cons_self), ?_⟩
  exact hglobal shopTypes shopFunction "f".toList "($x) \x7b \x7d".toList "$x".toList " \x7b \x7d".toList
    rfl (by decide +kernel) hfree.1 hfree.2 (by decide +kernel)

end Synopsis.Php
