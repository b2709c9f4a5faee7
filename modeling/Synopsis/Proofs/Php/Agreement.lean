import Synopsis.Language
import Synopsis.Proofs.Comment
import Synopsis.Proofs.Nesting.Span
import Synopsis.Proofs.Scan.Site

/-!
# PHP: what is located is what is read back

A method carries its owner in a comment at the end of its fragment, and a global function carries
none. The reader looks for such a comment anywhere in the fragment, so two things have to be shown:

* `splitOwner_ownerMarker`: the marker that was written is the first that is found;
* `splitOwner_eq_self`: the return text of a global function ends in no marker of its own, since the
  removal of comments leaves none (`CommentStyle.blockFree_strip`).
-/

namespace Synopsis.Php

open Text

/-- A function in a text without comments: its owner, its name, and the text that goes on after it. A
    method stands directly in the braces of its type, any other function outside of all types. -/
inductive Candidate (t : Text) : Option Text → Text → Text → Prop
  | method {b : Stretch × TypeBlock} {s : Site Text} : b ∈ typeBlocks t →
      s ∈ sites functionAt? b.2.body → topLevelAt (braceDepths b.2.body) s.start = true →
      Candidate t (some b.2.name) s.found s.rest
  | global {s : Site Text} : s ∈ sites functionAt? t →
      covered (anonymousStretches t ++ (typeBlocks t).map Prod.fst) s.start = false →
      Candidate t none s.found s.rest

/-- `Located t f s`: a type, or a function with a closed parameter list, stands in `t`, `f` is what is
    written of it and `s` is what it says. -/
inductive Located (t : Text) : Text → Signature → Prop
  | type {b : Stretch × TypeBlock} : b ∈ typeBlocks t →
      Located t (Entry.fragment (.type b.2.kind b.2.name)) { name := b.2.name }
  | function {owner : Option Text} {name rest params tail : Text} : Candidate t owner name rest →
      group? rest = some (params, tail) →
      Located t (Entry.fragment (.function name (collapse params) (returnText? tail) owner))
        { name
          parameters := parameters (collapse params)
          returnType := returnText? tail
          className := owner }

/-- What a located entry says. -/
def Entry.signature : Entry → Signature
  | .type _ name => { name }
  | .function name params returns owner =>
    { name, parameters := Php.parameters params, returnType := returns, className := owner }

/-- What stands between the parameters of a fragment and its marker. -/
def writtenReturns (returns : Option Text) : Text := (returns.map (": ".toList ++ ·)).getD []

/-- A return text that ends where it is written to end. -/
structure IsReturnText (r : Text) : Prop where
  ne_nil : r ≠ []
  trimmed : trim r = r
  open_not_mem : '{' ∉ r
  semicolon_not_mem : ';' ∉ r

/-- An entry that can be told apart from what is written around its parts. -/
inductive Entry.WellFormed : Entry → Prop
  | type {kind name : Text} {word : String} : word ∈ ["class", "trait", "interface", "enum"] →
      kind = word.toList → isName name = true → WellFormed (.type kind name)
  | function {name params : Text} {returns owner : Option Text} : isName name = true →
      Grouped params (writtenReturns returns) → (∀ r ∈ returns, IsReturnText r) →
      (∀ o ∈ owner, isName o = true) →
      (owner = none → ∀ r ∈ returns, CommentStyle.BlockFree r) →
      WellFormed (.function name params returns owner)

/-! ## Located entries are well formed -/

/-- An annotation is read up to a brace, a semicolon or the end of the line. -/
theorem returnText?_eq_some_iff {t r : Text} : returnText? t = some r ↔
    r ≠ [] ∧ ∃ u, char? ':' (trimStart t) = some u ∧
      r = trim ((trimStart u).takeWhile fun c => c ≠ '{' && c ≠ ';' && c ≠ '\n') := by
  simp only [returnText?, Option.bind_eq_bind, Option.bind_eq_some_iff, nonempty?_eq_some]
  constructor
  · rintro ⟨u, hu, hne, rfl⟩
    exact ⟨hne, u, hu, rfl⟩
  · rintro ⟨hne, u, hu, rfl⟩
    exact ⟨u, hu, hne, rfl⟩

theorem infix_of_returnText? {t r : Text} (h : returnText? t = some r) : r <:+: t := by
  obtain ⟨-, u, hu, rfl⟩ := returnText?_eq_some_iff.1 h
  have hcolon := (suffix_of_after? hu).trans (suffix_trimStart t)
  have hline := (List.takeWhile_prefix (fun c => c ≠ '{' && c ≠ ';' && c ≠ '\n')
    (l := trimStart u)).isInfix
  exact ((infix_trim _).trans hline).trans ((suffix_trimStart u).trans hcolon).isInfix

theorem isReturnText_of_returnText? {t r : Text} (h : returnText? t = some r) : IsReturnText r := by
  obtain ⟨hne, u, -, rfl⟩ := returnText?_eq_some_iff.1 h
  exact ⟨hne, trim_trim _, not_mem_trim_takeWhile rfl _, not_mem_trim_takeWhile rfl _⟩

theorem name_of_functionAt? {p : Place} {name rest : Text} (h : functionAt? p = some (name, rest)) :
    isName name = true ∧ rest <:+ p.rest := by
  rw [functionAt?] at h
  split at h
  · cases h
  · obtain ⟨t, ht, h⟩ := Option.bind_eq_some_iff.1 h
    obtain ⟨⟨name', u⟩, hname, h⟩ := Option.bind_eq_some_iff.1 h
    obtain ⟨v, hv, h⟩ := Option.bind_eq_some_iff.1 h
    obtain ⟨rfl, rfl⟩ := Prod.mk.inj (Option.some.inj h)
    have hopen : v = trimStart u := by
      rw [ahead?] at hv
      split at hv
      · exact (Option.some.inj hv).symm
      · cases hv
    have hreference : (char? '&' t).getD t <:+ t := by
      cases hchar : char? '&' t with
      | none => exact List.suffix_refl t
      | some w => exact suffix_of_after? hchar
    refine ⟨isName_of_name? hname, hopen ▸ ?_⟩
    have hhead := (suffix_trimStart _).trans (hreference.trans (suffix_of_keywordBy? ht))
    exact ((suffix_trimStart u).trans (suffix_of_name? hname)).trans hhead

theorem function?_eq_some_iff {owner : Option Text} {name t : Text} {e : Entry} :
    function? owner name t = some e ↔ ∃ params rest, group? t = some (params, rest) ∧
      e = .function name (collapse params) (returnText? rest) owner := by
  simp only [function?, Option.bind_eq_bind, Option.bind_eq_some_iff]
  constructor
  · rintro ⟨⟨params, rest⟩, hgroup, he⟩
    exact ⟨params, rest, hgroup, (Option.some.inj he).symm⟩
  · rintro ⟨params, rest, hgroup, rfl⟩
    exact ⟨(params, rest), hgroup, rfl⟩

theorem wellFormed_of_function? {owner : Option Text} {name t : Text} {e : Entry}
    (hname : isName name = true) (howner : ∀ o ∈ owner, isName o = true)
    (hfree : owner = none → CommentStyle.BlockFree t) (h : function? owner name t = some e) :
    e.WellFormed := by
  obtain ⟨params, rest, hgroup, rfl⟩ := function?_eq_some_iff.1 h
  obtain ⟨rfl, hgrouped⟩ := group?_eq_some_iff.1 hgroup
  refine .function hname ?_ (fun r hr => isReturnText_of_returnText? hr) howner fun hnone r hr => ?_
  · -- A list that is never closed reaches the end of the text, so no return text follows it.
    refine hgrouped.collapse fun hrest => ?_
    rw [hrest]
    rfl
  · refine (hfree hnone).mono ((infix_of_returnText? hr).trans ?_)
    exact ((List.suffix_cons ')' rest).trans (List.suffix_append _ _)).isInfix

theorem wellFormed_of_typeHead? {p : Place} {kind name t : Text}
    (h : typeHead? p = some ((kind, name), t)) : (Entry.type kind name).WellFormed := by
  rw [typeHead?] at h
  split at h
  · cases h
  · obtain ⟨⟨k, u⟩, hkind, h⟩ := Option.bind_eq_some_iff.1 h
    obtain ⟨⟨name', v⟩, hname, h⟩ := Option.bind_eq_some_iff.1 h
    obtain ⟨w, -, h⟩ := Option.bind_eq_some_iff.1 h
    obtain ⟨hhead, -⟩ := Prod.mk.inj (Option.some.inj h)
    obtain ⟨rfl, rfl⟩ := Prod.mk.inj hhead
    obtain ⟨word, hword, hk⟩ := List.exists_of_findSome?_eq_some hkind
    obtain ⟨x, -, hk⟩ := Option.map_eq_some_iff.1 hk
    obtain ⟨rfl, -⟩ := Prod.mk.inj hk
    exact .type hword rfl (isName_of_name? hname)

theorem wellFormed_of_typeAt? {hidden : List Stretch} {p : Place} {b : TypeBlock} {rest : Text}
    (h : typeAt? hidden p = some (some b, rest)) : (Entry.type b.kind b.name).WellFormed := by
  rw [typeAt?] at h
  obtain ⟨⟨⟨kind, name⟩, t⟩, hhead, h⟩ := Option.bind_eq_some_iff.1 h
  simp only at h
  split at h
  · cases h
  · obtain ⟨hb, -⟩ := Prod.mk.inj (Option.some.inj h)
    obtain rfl := Option.some.inj hb
    exact wellFormed_of_typeHead? hhead

theorem wellFormed_of_mem_typeBlocks {t : Text} {b : Stretch × TypeBlock} (h : b ∈ typeBlocks t) :
    (Entry.type b.2.kind b.2.name).WellFormed := by
  obtain ⟨s, hs, h⟩ := List.mem_filterMap.1 h
  obtain ⟨block, hfound, rfl⟩ := Option.map_eq_some_iff.1 h
  obtain ⟨a, c, -, -, hread⟩ := exists_cut_of_mem_sites hs
  rw [hfound] at hread
  exact wellFormed_of_typeAt? hread

theorem mem_entries_iff {t : Text} {e : Entry} : e ∈ entries t ↔
    (∃ b ∈ typeBlocks t, e = .type b.2.kind b.2.name) ∨
      ∃ owner name rest, Candidate t owner name rest ∧ function? owner name rest = some e := by
  constructor
  · intro he
    rcases List.mem_append.1 he with he | he
    · obtain ⟨b, hb, he⟩ := List.mem_flatMap.1 he
      rcases List.mem_cons.1 he with rfl | he
      · exact .inl ⟨b, hb, rfl⟩
      · obtain ⟨s, hs, he⟩ := List.mem_filterMap.1 he
        obtain ⟨hs, htop⟩ := List.mem_filter.1 hs
        exact .inr ⟨_, s.found, s.rest, .method hb hs htop, he⟩
    · obtain ⟨s, hs, he⟩ := List.mem_filterMap.1 he
      obtain ⟨hs, hfree⟩ := List.mem_filter.1 hs
      exact .inr ⟨none, s.found, s.rest, .global hs (by simpa using hfree), he⟩
  · rintro (⟨b, hb, rfl⟩ | ⟨owner, name, rest, hcandidate, he⟩)
    · exact List.mem_append_left _ (List.mem_flatMap.2 ⟨b, hb, List.mem_cons_self⟩)
    · cases hcandidate with
      | method hb hs htop =>
        refine List.mem_append_left _ (List.mem_flatMap.2 ⟨_, hb, List.mem_cons_of_mem _ ?_⟩)
        exact List.mem_filterMap.2 ⟨_, List.mem_filter.2 ⟨hs, htop⟩, he⟩
      | global hs hfree =>
        refine List.mem_append_right _ (List.mem_filterMap.2 ⟨_, List.mem_filter.2 ⟨hs, ?_⟩, he⟩)
        rw [hfree]
        rfl

theorem wellFormed_of_mem_entries {t : Text} (hfree : CommentStyle.BlockFree t) {e : Entry}
    (h : e ∈ entries t) : e.WellFormed := by
  rcases mem_entries_iff.1 h with ⟨b, hb, rfl⟩ | ⟨owner, name, rest, hcandidate, he⟩
  · exact wellFormed_of_mem_typeBlocks hb
  · cases hcandidate with
    | @method b s hb hs _ =>
      obtain ⟨_, _, -, -, hread⟩ := exists_cut_of_mem_sites hs
      refine wellFormed_of_function? (name_of_functionAt? hread).1 ?_ (by simp) he
      cases wellFormed_of_mem_typeBlocks hb with
      | type _ _ hname => simpa using hname
    | global hs _ =>
      obtain ⟨a, b, rfl, -, hread⟩ := exists_cut_of_mem_sites hs
      obtain ⟨hname, hrest⟩ := name_of_functionAt? hread
      refine wellFormed_of_function? hname (by simp) (fun _ => hfree.mono ?_) he
      exact (hrest.trans (List.suffix_append a b)).isInfix

/-! ## Owner markers -/

theorem ownerAt?_eq_some {p : Place} {o : Text} (h : ownerAt? p = some o) :
    ∃ run g, p.rest = "/*__CLASS:".toList ++ (run ++ ("*/".toList ++ g)) ∧
      run.all isWord = true ∧ blank g = true := by
  rw [ownerAt?] at h
  obtain ⟨t, ht, h⟩ := Option.bind_eq_some_iff.1 h
  obtain ⟨⟨run, u⟩, hrun, h⟩ := Option.bind_eq_some_iff.1 h
  obtain ⟨g, hg, h⟩ := Option.bind_eq_some_iff.1 h
  split at h
  · next hend =>
    refine ⟨run, g, ?_, all_isWord_of_isName (isName_of_name? hrun), (Bool.and_eq_true_iff.1 hend).1⟩
    rw [after?_eq_some.1 ht, (eq_append_of_nameOf? hrun).1, after?_eq_some.1 hg]
  · cases h

theorem ownerMarker_eq (o : Text) :
    ownerMarker o = "/*__CLASS:".toList ++ ((o ++ ['_', '_']) ++ "*/".toList) := by
  have hmarker : ownerMarker o = "/*__CLASS:".toList ++ o ++ "__*/".toList := rfl
  have hclose : "__*/".toList = ['_', '_'] ++ "*/".toList := rfl
  rw [hmarker, hclose, List.append_assoc, List.append_assoc]

theorem ownerAt?_ownerMarker {o : Text} (ho : isName o = true) (a : Text) :
    ownerAt? (.between a (ownerMarker o)) = some o := by
  have hname : isName (o ++ ['_', '_']) = true := by
    cases o with
    | nil => cases ho
    | cons c o =>
      obtain ⟨hc, ho⟩ := Bool.and_eq_true_iff.1 ho
      refine Bool.and_eq_true_iff.2 ⟨hc, List.all_append.trans ?_⟩
      rw [ho]
      rfl
  have hmarker : (Place.between a (ownerMarker o)).rest =
      "/*__CLASS:".toList ++ ((o ++ ['_', '_']) ++ "*/".toList) := ownerMarker_eq o
  have hne : o.reverse.isEmpty = false := by
    cases o with
    | nil => cases ho
    | cons c o => simp
  have hend : after? "*/".toList "*/".toList = some [] := rfl
  have hrun : after? "__".toList (o ++ ['_', '_']).reverse = some o.reverse := by
    rw [List.reverse_append]
    rfl
  have howner : (o ++ ['_', '_']).dropLast.dropLast = o := by simp
  rw [ownerAt?, hmarker, after?_append]
  simp only [Option.bind_eq_bind, Option.bind_some, name?_append hname (t := "*/".toList) rfl, hend,
    hrun, Option.any_some, hne, howner]
  rfl

/-- The marker at the end of a fragment is the first one in it: one that starts before would hold the
    slash that the other starts with. -/
theorem splitOwner_ownerMarker {t o : Text} (ht : trim t = t) (ho : isName o = true) :
    splitOwner (t ++ ' ' :: ownerMarker o) = (t, some o) := by
  have hnone (a₁ a₂ : Text) (hne : a₂ ≠ []) (_ : t ++ [' '] = a₁ ++ a₂) :
      (ownerAt? (.between a₁ (a₂ ++ ownerMarker o))).map (·, ([] : Text)) = none := by
    cases h : ownerAt? (.between a₁ (a₂ ++ ownerMarker o)) with
    | none => rfl
    | some x =>
      obtain ⟨run, g, hrest, hrun, hg⟩ := ownerAt?_eq_some h
      -- Behind its first character, a marker to the end of the text holds one slash; the text holds
      -- the two of the marker that was written.
      obtain ⟨c, u, rfl⟩ := List.exists_cons_of_ne_nil hne
      obtain ⟨-, htail⟩ : c = '/' ∧ u ++ ownerMarker o =
        "*__CLASS:".toList ++ (run ++ ("*/".toList ++ g)) := List.cons.inj hrest
      have hcount := congrArg (List.count '/') htail
      have hopen : "/*__CLASS:".toList.count '/' = 1 := rfl
      have hrun : run.count '/' = 0 := List.count_eq_zero.2 (not_mem_of_all hrun rfl)
      have hg : g.count '/' = 0 := List.count_eq_zero.2 (not_mem_of_all hg rfl)
      have hclass : "*__CLASS:".toList.count '/' = 0 := rfl
      have hclose : "*/".toList.count '/' = 1 := rfl
      simp only [ownerMarker_eq, List.count_append] at hcount
      omega
  have hfirst : firstSite? (fun p => (ownerAt? p).map (·, [])) (t ++ [' '] ++ ownerMarker o) =
      some ⟨(t ++ [' ']).length, o, []⟩ :=
    firstSite?_append (List.cons_ne_nil _ _) hnone (by rw [ownerAt?_ownerMarker ho]; rfl)
  have htake : trim (t ++ [' ']) = t := (trim_concat_of_blank isBlank_space t).trans ht
  rw [splitOwner, show t ++ ' ' :: ownerMarker o = t ++ [' '] ++ ownerMarker o by simp, hfirst]
  simp only [List.take_left, htake]

/-- A fragment that ends in no comment has no owner. -/
theorem splitOwner_eq_self {t : Text} (ht : trim t = t)
    (h : ∀ a m, ' ' ∉ m → t ≠ a ++ '/' :: '*' :: (m ++ ['*', '/'])) : splitOwner t = (t, none) := by
  have hnone : firstSite? (fun p => (ownerAt? p).map (·, ([] : Text))) t = none := by
    refine firstSite?_eq_none fun a b hab => ?_
    cases howner : ownerAt? (.between a b) with
    | none => rfl
    | some o =>
      obtain ⟨run, g, hrest, hrun, hg⟩ := ownerAt?_eq_some howner
      obtain rfl : b = _ := hrest
      have hlast := (trim_eq_self_iff.1 ht).2
      -- A trimmed text ends with the marker itself.
      have hend : g = [] := by
        cases hlastg : g.getLast? with
        | none => exact List.getLast?_eq_none_iff.1 hlastg
        | some c =>
          rw [hab, List.getLast?_append, List.getLast?_append, List.getLast?_append,
            List.getLast?_append, hlastg] at hlast
          have hc : isBlank c = true := List.all_eq_true.1 hg c (List.mem_of_getLast? hlastg)
          simp [hc] at hlast
      refine absurd hab ?_
      rw [hend, List.append_nil]
      have hsolid : ' ' ∉ "__CLASS:".toList ++ run := by
        rw [List.mem_append, not_or]
        exact ⟨by decide, not_mem_of_all hrun rfl⟩
      have hne := h a ("__CLASS:".toList ++ run) hsolid
      rw [List.append_assoc] at hne
      exact hne
  rw [splitOwner, hnone]

/-! ## Reading a written entry -/

/-- A function written without its marker. -/
def writtenHeader (name params : Text) (returns : Option Text) : Text :=
  "function".toList ++ ' ' :: (name ++ '(' :: (params ++ ')' :: writtenReturns returns))

section Function

variable {name params : Text} {returns owner : Option Text}

theorem writtenHeader_eq (name params : Text) (returns : Option Text) :
    writtenHeader name params returns = ("function".toList ++ ' ' :: (name ++ '(' :: params)) ++
      ')' :: writtenReturns returns := by
  have hheader : writtenHeader name params returns =
      "function".toList ++ ' ' :: (name ++ '(' :: (params ++ ')' :: writtenReturns returns)) := rfl
  rw [hheader]
  simp only [List.append_assoc, List.cons_append]

theorem fragment_function (name params : Text) (returns owner : Option Text) :
    (Entry.function name params returns owner).fragment =
      writtenHeader name params returns ++ (owner.map fun o => ' ' :: ownerMarker o).getD [] := by
  have hfragment : (Entry.function name params returns owner).fragment =
      "function ".toList ++ name ++ '(' :: params ++ ')' :: writtenReturns returns ++
        (owner.map fun o => ' ' :: ownerMarker o).getD [] := rfl
  have hkeyword : "function ".toList = "function".toList ++ [' '] := rfl
  rw [hfragment, hkeyword, writtenHeader_eq]
  simp only [List.append_assoc, List.cons_append, List.nil_append]

theorem trim_writtenHeader (hreturns : ∀ r ∈ returns, IsReturnText r) :
    trim (writtenHeader name params returns) = writtenHeader name params returns := by
  have hend : trimEnd (writtenReturns returns) = writtenReturns returns := by
    cases returns with
    | none => rfl
    | some r => exact trimEnd_append_of_trim (hreturns r rfl).ne_nil (hreturns r rfl).trimmed _
  rw [writtenHeader_eq, trim_append_cons (by decide), hend]
  rfl

theorem trim_function (hreturns : ∀ r ∈ returns, IsReturnText r) :
    trim (Entry.function name params returns owner).fragment =
      (Entry.function name params returns owner).fragment := by
  cases owner with
  | none =>
    rw [fragment_function, Option.map_none, Option.getD_none, List.append_nil]
    exact trim_writtenHeader hreturns
  | some o =>
    have hstart (t : Text) : trimStart (writtenHeader name params returns ++ t) =
        writtenHeader name params returns ++ t := rfl
    rw [fragment_function, trim, hstart, Option.map_some, Option.getD_some, ownerMarker_eq,
      ← List.append_assoc "/*__CLASS:".toList, ← List.cons_append, ← List.append_assoc]
    exact trimEnd_append_of_trim (List.cons_ne_nil _ _) rfl _

theorem splitOwner_writtenHeader (hreturns : ∀ r ∈ returns, IsReturnText r)
    (hfree : ∀ r ∈ returns, CommentStyle.BlockFree r) :
    splitOwner (writtenHeader name params returns) = (writtenHeader name params returns, none) := by
  refine splitOwner_eq_self (trim_writtenHeader hreturns) fun a m hm heq => ?_
  rw [writtenHeader_eq] at heq
  cases returns with
  | none =>
    have hlast : ("function".toList ++ ' ' :: (name ++ '(' :: params)) ++ [')'] =
        (a ++ '/' :: '*' :: (m ++ ['*'])) ++ ['/'] := by
      rw [List.append_assoc a, List.cons_append, List.cons_append, List.append_assoc m]
      exact heq
    exact absurd (List.append_inj' hlast rfl).2 (by decide)
  | some r =>
    -- A comment without a blank that reaches the end lies within the return text.
    have hspace : ("function".toList ++ ' ' :: (name ++ '(' :: params) ++ [')', ':']) ++ ' ' :: r =
        a ++ '/' :: '*' :: (m ++ ['*', '/']) := by
      rw [List.append_assoc]
      exact heq
    obtain ⟨u, hu⟩ := suffix_of_append_eq_append hspace (by simpa using hm)
    exact hfree r rfl u m [] hu.symm

theorem returnType_writtenReturns (hreturns : ∀ r ∈ returns, IsReturnText r) :
    returnType (writtenReturns returns) = returns := by
  cases returns with
  | none => rfl
  | some r =>
    have hr := hreturns r rfl
    have hpad : trim (' ' :: r) = r := (trim_cons_of_blank isBlank_space r).trans hr.trimmed
    have hkeep : dropTrailing (fun c => c == '{' || c == ';') r = r := by
      refine dropTrailing_eq_self fun c hc => ?_
      have hmem := List.mem_of_getLast? hc
      rw [Bool.or_eq_false_iff, beq_eq_false_iff_ne, beq_eq_false_iff_ne]
      exact ⟨fun h => hr.open_not_mem (h ▸ hmem), fun h => hr.semicolon_not_mem (h ▸ hmem)⟩
    have hstart : char? ':' (trimStart (writtenReturns (some r))) = some (' ' :: r) := rfl
    rw [returnType, hstart]
    simp only [Option.bind_eq_bind, Option.bind_some, hpad, hkeep, hr.trimmed,
      nonempty?_of_ne_nil hr.ne_nil]

end Function

theorem typeName?_type {kind : String} (hkind : kind ∈ ["class", "trait", "interface", "enum"])
    {name : Text} (hname : isName name = true) : typeName? (kind.toList ++ ' ' :: name) = some name := by
  have hblank := (isWordRun_of_isName hname).notBefore_isBlank []
  rw [List.append_nil] at hblank
  rw [typeName?, findSome?_keyword? (fun v hv => (solid_words (by decide) v hv).2) hkind hblank]
  exact if_pos hname

theorem typeName?_of_head {t : Text} (h : t.head? = some 'f') : typeName? t = none := by
  have hnone : ["class", "trait", "interface", "enum"].findSome? (keyword? · t) = none := by
    refine List.findSome?_eq_none_iff.2 fun word hword => ?_
    have hfirst : ∀ w ∈ ["class", "trait", "interface", "enum"],
        w.toList ≠ [] ∧ w.toList.head? ≠ some 'f' := by decide
    exact keyword?_eq_none (hfirst word hword).1 (h ▸ (hfirst word hword).2)
  rw [typeName?, hnone]
  rfl

theorem trim_type {kind : String} (hkind : kind ∈ ["class", "trait", "interface", "enum"])
    {name : Text} (hname : isName name = true) :
    trim (kind.toList ++ ' ' :: name) = kind.toList ++ ' ' :: name := by
  have hwords : ∀ w ∈ ["class", "trait", "interface", "enum"],
      w.toList ≠ [] ∧ trim w.toList = w.toList := by decide
  obtain ⟨hne, htrim⟩ := hwords kind hkind
  exact trim_around hne htrim (isWordRun_of_isName hname).1 (trim_of_isName hname) [' ']

theorem splitOwner_function {name params : Text} {returns owner : Option Text}
    (hw : (Entry.function name params returns owner).WellFormed) :
    splitOwner (Entry.function name params returns owner).fragment =
      (writtenHeader name params returns, owner) := by
  cases hw with
  | function _ _ hreturns howner hfree =>
    rw [fragment_function]
    cases owner with
    | none =>
      rw [Option.map_none, Option.getD_none, List.append_nil]
      exact splitOwner_writtenHeader hreturns (hfree rfl)
    | some o => exact splitOwner_ownerMarker (trim_writtenHeader hreturns) (howner o rfl)

/-- A well-formed entry is read back as what it says. -/
theorem signature_fragment {e : Entry} (hw : e.WellFormed) : signature e.fragment = .ok e.signature := by
  cases hw with
  | @type _ name word hkind hk hname =>
    subst hk
    have hfragment : (Entry.type word.toList name).fragment = word.toList ++ ' ' :: name := rfl
    rw [hfragment, signature, trim_type hkind hname]
    simp only [typeName?_type hkind hname]
    rfl
  | @function name params returns owner hname hgroup hreturns howner hfree =>
    have hhead : (Entry.function name params returns owner).fragment.head? = some 'f' := rfl
    have hkeyword : keyword? "function" (writtenHeader name params returns) =
        some (name ++ '(' :: (params ++ ')' :: writtenReturns returns)) :=
      keyword?_append ((isWordRun_of_isName hname).notBefore_isBlank _)
    have hclose : group? ('(' :: (params ++ ')' :: writtenReturns returns)) =
        some (params, writtenReturns returns) := group?_of_grouped hgroup
    rw [signature, trim_function hreturns, typeName?_of_head hhead]
    simp only [splitOwner_function (.function hname hgroup hreturns howner hfree), hkeyword,
      Option.bind_some, name?_append hname (t := '(' :: (params ++ ')' :: writtenReturns returns)) rfl,
      trimStart_cons_of_not (show isBlank '(' = false from rfl), hclose,
      returnType_writtenReturns hreturns]
    rfl

/-! ## Sources -/

theorem trim_fragment {e : Entry} (hw : e.WellFormed) : trim e.fragment = e.fragment := by
  cases hw with
  | type hkind hk hname =>
    subst hk
    exact trim_type hkind hname
  | function _ _ hreturns _ _ => exact trim_function hreturns

theorem fragment_ne_nil (e : Entry) : e.fragment ≠ [] := by
  cases e with
  | type kind name => exact List.append_ne_nil_of_right_ne_nil kind (List.cons_ne_nil ' ' name)
  | function name params returns owner => exact List.cons_ne_nil _ _

theorem located_iff {t f : Text} {s : Signature} :
    Located t f s ↔ ∃ e ∈ entries t, f = e.fragment ∧ s = e.signature := by
  constructor
  · intro h
    cases h with
    | type hb => exact ⟨_, mem_entries_iff.2 (.inl ⟨_, hb, rfl⟩), rfl, rfl⟩
    | function hcandidate hgroup =>
      refine ⟨_, mem_entries_iff.2 (.inr ⟨_, _, _, hcandidate, ?_⟩), rfl, rfl⟩
      exact function?_eq_some_iff.2 ⟨_, _, hgroup, rfl⟩
  · rintro ⟨e, he, rfl, rfl⟩
    rcases mem_entries_iff.1 he with ⟨b, hb, rfl⟩ | ⟨owner, name, rest, hcandidate, he⟩
    · exact .type hb
    · obtain ⟨params, tail, hgroup, rfl⟩ := function?_eq_some_iff.1 he
      exact .function hcandidate hgroup

/-- The fragments of a source are its entries. -/
theorem mem_fragments_iff {source f : Text} : f ∈ fragments source ↔
    ∃ e ∈ entries (CommentStyle.slashesAndHash.strip source), f = e.fragment := by
  refine mem_distinct_map fun e he => ⟨fragment_ne_nil e, trim_fragment ?_⟩
  exact wellFormed_of_mem_entries (CommentStyle.blockFree_strip source) he

/-- What is located in a source is written and read back. -/
theorem read_located {source f : Text} {s : Signature}
    (h : Located (CommentStyle.slashesAndHash.strip source) f s) :
    f ∈ fragments source ∧ signature f = .ok s := by
  obtain ⟨e, he, rfl, rfl⟩ := located_iff.1 h
  have hw := wellFormed_of_mem_entries (CommentStyle.blockFree_strip source) he
  exact ⟨mem_fragments_iff.2 ⟨e, he, rfl⟩, signature_fragment hw⟩

/-- Whatever is written of a source was located in it. -/
theorem located_of_mem_fragments {source f : Text} (h : f ∈ fragments source) :
    ∃ s, Located (CommentStyle.slashesAndHash.strip source) f s := by
  obtain ⟨e, he, rfl⟩ := mem_fragments_iff.1 h
  exact ⟨_, located_iff.2 ⟨e, he, rfl, rfl⟩⟩

end Synopsis.Php
