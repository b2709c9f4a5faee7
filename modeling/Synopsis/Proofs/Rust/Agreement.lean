import Synopsis.Language
import Synopsis.Proofs.Rust.Header
import Synopsis.Proofs.Scan.Site

/-!
# Rust: what is located is what is read back

An item is located in one pass over the source and its signature is read from the written item in
another. `signature_of_candidate` says that no located function is lost on the way and that every part
of its signature is the part that stands in the source.
-/

namespace Synopsis.Rust

open Text Brackets

/-- A function head in a text without comments: its owner, whether it is asynchronous, its name, and
    the text that goes on after it. -/
inductive Candidate (t : Text) : Option Text → Bool × Text → Text → Prop
  | free {s : Site (Bool × Text)} : s ∈ sites functionAt? t → Candidate t none s.found s.rest
  | implMember {b : Site Unit} {header body owner : Text} {s : Site (Bool × Text)} :
      b ∈ sites implAt? t → block? b.rest = some (header, body) →
      implOwner? header = some owner → s ∈ sites memberAt? body →
      topLevelAt (braceDepths body) s.start = true → Candidate t (some owner) s.found s.rest
  | traitMember {b : Site Text} {header body : Text} {s : Site (Bool × Text)} :
      b ∈ sites traitAt? t → block? b.rest = some (header, body) → s ∈ sites memberAt? body →
      topLevelAt (braceDepths body) s.start = true → Candidate t (some b.found) s.found s.rest

/-- The blanks that may stand between the generics and the parameters. -/
def isGap (c : Char) : Bool := c == ' ' || c == '\t' || c == '\r' || c == '\n'

/-- The name of a function with its owner before it. -/
def qualified (owner : Option Text) (name : Text) : Text :=
  (owner.map (· ++ "::".toList)).getD [] ++ name

/-! ## Names -/

theorem isWordRun_of_fnHead? {t rest : Text} {head : Bool × Text}
    (h : fnHead? t = some (head, rest)) : IsWordRun head.2 := by
  rw [fnHead?] at h
  obtain ⟨u, -, h⟩ := Option.bind_eq_some_iff.1 h
  obtain ⟨⟨name, v⟩, hword, h⟩ := Option.bind_eq_some_iff.1 h
  obtain ⟨rfl, -⟩ := Prod.mk.inj (Option.some.inj h)
  exact isWordRun_of_word? hword

theorem isWordRun_of_implOwner? {header owner : Text} (h : implOwner? header = some owner) :
    IsWordRun owner :=
  isWordRun_of_isName (isName_of_implOwner? h)

theorem isWordRun_of_traitAt? {p : Place} {name rest : Text} (h : traitAt? p = some (name, rest)) :
    IsWordRun name := by
  rw [traitAt?] at h
  split at h
  · obtain ⟨u, -, hword⟩ := Option.bind_eq_some_iff.1 h
    exact isWordRun_of_word? hword
  · cases h

theorem isWordRun_of_functionAt? {p : Place} {head : Bool × Text} {rest : Text}
    (h : functionAt? p = some (head, rest)) : IsWordRun head.2 := by
  rw [functionAt?] at h
  split at h
  · exact isWordRun_of_fnHead? h
  · cases h

theorem isWordRun_of_memberAt? {p : Place} {head : Bool × Text} {rest : Text}
    (h : memberAt? p = some (head, rest)) : IsWordRun head.2 := by
  rw [memberAt?] at h
  split at h
  · exact isWordRun_of_fnHead? h
  · cases h

/-- The names of a candidate are words. -/
theorem Candidate.isWordRun {t rest : Text} {owner : Option Text} {head : Bool × Text}
    (h : Candidate t owner head rest) : IsWordRun head.2 ∧ ∀ o ∈ owner, IsWordRun o := by
  cases h with
  | free hs =>
    obtain ⟨a, b, -, -, hread⟩ := exists_cut_of_mem_sites hs
    exact ⟨isWordRun_of_functionAt? hread, by simp⟩
  | implMember _ _ howner hs _ =>
    obtain ⟨a, b, -, -, hread⟩ := exists_cut_of_mem_sites hs
    refine ⟨isWordRun_of_memberAt? hread, fun o ho => ?_⟩
    cases ho
    exact isWordRun_of_implOwner? howner
  | traitMember hb _ hs _ =>
    obtain ⟨a, b, -, -, hread⟩ := exists_cut_of_mem_sites hs
    obtain ⟨c, d, -, -, htrait⟩ := exists_cut_of_mem_sites hb
    refine ⟨isWordRun_of_memberAt? hread, fun o ho => ?_⟩
    cases ho
    exact isWordRun_of_traitAt? htrait

theorem path?_qualified {owner : Option Text} {name : Text} (hname : IsWordRun name)
    (howner : ∀ o ∈ owner, IsWordRun o) {t : Text} (ht : notBefore isWord t = true)
    (hcolon : t.head? ≠ some ':') :
    path? (qualified owner name ++ t) = some (qualified owner name, t) := by
  have hword : word? (name ++ t) = some (name, t) := run?_append hname.1 hname.2 ht
  cases owner with
  | none =>
    rw [show qualified none name = name from rfl, path?, hword]
    simp only [Option.bind_eq_bind, Option.bind_some,
      after?_eq_none_of_head (show "::".toList.head? = some ':' from rfl) hcolon]
    rfl
  | some o =>
    have ho := howner o rfl
    have hfirst : word? (o ++ ("::".toList ++ (name ++ t))) =
        some (o, "::".toList ++ (name ++ t)) := run?_append ho.1 ho.2 rfl
    have hq : qualified (some o) name ++ t = o ++ ("::".toList ++ (name ++ t)) := by
      simp [qualified]
    rw [hq, path?, hfirst]
    simp only [Option.bind_eq_bind, Option.bind_some, after?_append, hword]
    simp [qualified]

/-! ## Parameters -/

theorem row_modifyHead {f : Text → Text} {ps : List Text} (h : all.Row ps)
    (hf : ∀ p, all.IsPiece p → all.IsPiece (f p) ∧
      (all.openAfter [] none p = [] → all.openAfter [] none (f p) = [])) :
    all.Row (ps.modifyHead f) := by
  cases ps with
  | nil => exact h
  | cons p ps =>
    rw [List.modifyHead_cons]
    have hp := hf p (h.piece p List.mem_cons_self)
    refine h.tail.cons hp.1 fun hne => hp.2 (h.closed p ?_)
    cases ps with
    | nil => exact absurd rfl hne
    | cons q qs => exact List.mem_cons_self

theorem isPiece_text (r : Receiver) : all.IsPiece r.text ∧ all.openAfter [] none r.text = [] := by
  cases r <;> exact ⟨⟨by decide, by decide, by decide⟩, by decide⟩

theorem row_writtenParameters (params : Text) : all.Row (writtenParameters params) := by
  refine row_modifyHead ((row_pieces usual_all params).map_collapse usual_all) fun p hp => ?_
  rw [canonicalReceiver]
  cases receiver? p with
  | none => exact ⟨hp, id⟩
  | some r => exact ⟨(isPiece_text r).1, fun _ => (isPiece_text r).2⟩

theorem pieces_join_writtenParameters (params : Text) :
    all.pieces (join ", " (writtenParameters params)) = writtenParameters params :=
  pieces_join usual_all (row_writtenParameters params)

/-- The written list has the parameters of the list in the source. -/
theorem parameters_join (params : Text) :
    parameters (join ", " (writtenParameters params)) = parameters (collapse params) := by
  rw [parameters, pieces_join_writtenParameters, parameters, pieces_collapse usual_all,
    writtenParameters]
  cases all.pieces params with
  | nil => rfl
  | cons p ps => simp [parameter_canonicalReceiver]

/-- The written list starts with a receiver exactly when the list in the source does. -/
theorem receiver_join (params : Text) :
    ((all.pieces (join ", " (writtenParameters params))).head?.any fun p => (receiver? p).isSome) =
      (all.pieces params).head?.any fun p => (receiver? p).isSome := by
  rw [pieces_join_writtenParameters, writtenParameters]
  cases hp : all.pieces params with
  | nil => rfl
  | cons p ps =>
    have htrim := ((row_pieces usual_all params).piece p (hp ▸ List.mem_cons_self)).trimmed
    simp [isSome_receiver?_canonicalReceiver, receiver?_collapse htrim]

theorem depthAfter_join_collapse (d : Nat) (params : Text) :
    depthAfter '(' ')' d (join ", " ((all.pieces params).map collapse)) =
      depthAfter '(' ')' d params := by
  have hblank (c : Char) (hc : isBlank c = true) : (c == '(' || c == ')') = false :=
    bracket_of_blank (by decide) (by decide) hc
  refine depthAfter_congr ?_ d
  rw [filter_join hblank (by decide), List.filter_flatten, List.map_map,
    ← filter_flatten_pieces usual_all hblank (by decide) params, List.filter_flatten]
  congr 1
  exact List.map_congr_left fun p _ => filter_collapse hblank p

/-- The written list is closed where the list in the source is. -/
theorem grouped_join {params rest rest' : Text} (h : Grouped params rest)
    (hr : rest = [] → rest' = []) : Grouped (join ", " (writtenParameters params)) rest' := by
  obtain ⟨k, hdep, hk⟩ := h
  rw [← depthAfter_join_collapse] at hdep
  have hsame : Grouped (join ", " ((all.pieces params).map collapse)) rest' :=
    ⟨k, hdep, hk.imp_right hr⟩
  have hrow := (row_pieces usual_all params).map_collapse usual_all
  rw [writtenParameters]
  cases hps : (all.pieces params).map collapse with
  | nil => rw [hps] at hsame; exact hsame
  | cons p ps =>
    rw [hps] at hsame hdep hrow
    rw [List.modifyHead_cons, canonicalReceiver]
    cases receiver? p with
    | none => exact hsame
    | some r =>
      have hreceiver : depthAfter '(' ')' 1 r.text = some 1 := by cases r <;> decide
      rw [Option.map_some, Option.getD_some]
      cases ps with
      | nil => exact .of_balanced (by simpa [join] using hreceiver) rest'
      | cons q qs =>
        -- what the receiver stands for closes its parentheses, so the rest is as deep as before
        rw [join_cons_cons, depthAfter_append] at hdep
        obtain ⟨e, he, hrest⟩ := Option.bind_eq_some_iff.1 hdep
        obtain rfl : e = 1 := depthAfter_of_closed (b := all) (by decide) (by decide) (by decide)
          (hrow.closed p List.mem_cons_self) he
        refine ⟨k, ?_, hk.imp_right hr⟩
        rw [join_cons_cons, depthAfter_append, hreceiver, Option.bind_some, hrest]

/-! ## Items -/

theorem item?_eq_some_iff {owner : Option Text} {head : Bool × Text} {t : Text} {i : Item} :
    item? owner head t = some i ↔ ∃ params tail,
      group? ((generics t).2.dropWhile isGap) = some (params, tail) ∧
        i = ⟨head.1, owner, head.2, collapse (generics t).1, writtenParameters params,
          returnType tail⟩ := by
  simp only [item?, Option.bind_eq_bind, Option.bind_eq_some_iff]
  constructor
  · rintro ⟨⟨params, tail⟩, hgroup, hi⟩
    exact ⟨params, tail, hgroup, (Option.some.inj hi).symm⟩
  · rintro ⟨params, tail, hgroup, rfl⟩
    exact ⟨(params, tail), hgroup, rfl⟩

theorem mem_members_iff {owner body : Text} {i : Item} :
    i ∈ members owner body ↔ ∃ s ∈ sites memberAt? body,
      topLevelAt (braceDepths body) s.start = true ∧ item? (some owner) s.found s.rest = some i := by
  simp only [members, List.mem_filterMap, List.mem_filter, and_assoc]

/-- The items of a text are the candidates whose parameter list is closed. -/
theorem mem_items_iff {t : Text} {i : Item} :
    i ∈ items t ↔ ∃ owner head rest, Candidate t owner head rest ∧
      item? owner head rest = some i := by
  simp only [items, List.mem_append, List.mem_filterMap, List.mem_flatMap]
  constructor
  · rintro ((⟨s, hs, hi⟩ | ⟨b, hb, hi⟩) | ⟨b, hb, hi⟩)
    · exact ⟨none, s.found, s.rest, .free hs, hi⟩
    · cases hblock : block? b.rest with
      | none => simp [implItems, hblock] at hi
      | some m =>
        cases howner : implOwner? m.1 with
        | none => simp [implItems, hblock, howner] at hi
        | some owner =>
          have hi : i ∈ members owner m.2 := by simpa [implItems, hblock, howner] using hi
          obtain ⟨s, hs, htop, hi⟩ := mem_members_iff.1 hi
          exact ⟨some owner, s.found, s.rest, .implMember hb hblock howner hs htop, hi⟩
    · cases hblock : block? b.rest with
      | none => simp [traitItems, hblock] at hi
      | some m =>
        have hi : i ∈ members b.found m.2 := by simpa [traitItems, hblock] using hi
        obtain ⟨s, hs, htop, hi⟩ := mem_members_iff.1 hi
        exact ⟨some b.found, s.found, s.rest, .traitMember hb hblock hs htop, hi⟩
  · rintro ⟨owner, head, rest, hc, hi⟩
    cases hc with
    | free hs => exact .inl (.inl ⟨_, hs, hi⟩)
    | implMember hb hblock howner hs htop =>
      refine .inl (.inr ⟨_, hb, ?_⟩)
      simpa [implItems, hblock, howner] using mem_members_iff.2 ⟨_, hs, htop, hi⟩
    | traitMember hb hblock hs htop =>
      refine .inr ⟨_, hb, ?_⟩
      simpa [traitItems, hblock] using mem_members_iff.2 ⟨_, hs, htop, hi⟩

theorem notBefore_isBlank_qualified {owner : Option Text} {name : Text} (hname : IsWordRun name)
    (howner : ∀ o ∈ owner, IsWordRun o) (t : Text) :
    notBefore isBlank (qualified owner name ++ t) = true := by
  cases owner with
  | none => exact hname.notBefore_isBlank t
  | some o =>
    have h := (howner o rfl).notBefore_isBlank ("::".toList ++ (name ++ t))
    simpa [qualified] using h

/-- What is written after the parameters. -/
def writtenReturns (returns : Option Text) : Text := (returns.map (" -> ".toList ++ ·)).getD []

theorem fragment_eq (i : Item) : i.fragment = (if i.isAsync then "async ".toList else []) ++
    ("fn".toList ++ ' ' :: (qualified i.owner i.name ++ (i.generics ++
      '(' :: (join ", " i.parameters ++ ')' :: writtenReturns i.returns)))) := by
  simp only [Item.fragment, qualified, writtenReturns, List.append_assoc, List.cons_append]
  rfl

theorem fragment_ne_nil (i : Item) : i.fragment ≠ [] := by
  rw [fragment_eq]
  cases i.isAsync <;> exact List.cons_ne_nil _ _

theorem trim_fragment {i : Item} (hreturns : ∀ r ∈ i.returns, IsReturnType r) :
    trim i.fragment = i.fragment := by
  have hend : trimEnd (writtenReturns i.returns) = writtenReturns i.returns := by
    cases hr : i.returns with
    | none => rfl
    | some r =>
      have h := hreturns r hr
      exact trimEnd_append_of_trim h.ne_nil (by rw [← h.collapsed, trim_collapse]) _
  have hfragment : i.fragment = ((if i.isAsync then "async ".toList else []) ++
      ("fn".toList ++ ' ' :: (qualified i.owner i.name ++ (i.generics ++
        '(' :: join ", " i.parameters)))) ++ ')' :: writtenReturns i.returns := by
    rw [fragment_eq]
    simp only [List.append_assoc, List.cons_append]
  rw [hfragment, trim_append_cons (by decide), hend,
    trimStart_eq_self (by cases i.isAsync <;> rfl)]

/-- The signature of an item, read from what is written of it, when each part of the item is one that
    can be told from what follows it. -/
theorem signature_fragment {i : Item} (hname : IsWordRun i.name) (howner : ∀ o ∈ i.owner, IsWordRun o)
    (hgenerics : ∀ u : Text, u.head? ≠ some '<' → generics (i.generics ++ u) = (i.generics, u))
    (hgroup : Grouped (join ", " i.parameters) (writtenReturns i.returns))
    (hreturns : ∀ r ∈ i.returns, IsReturnType r) :
    signature i.fragment = .ok {
      name := qualified i.owner i.name ++ i.generics
      parameters := parameters (join ", " i.parameters)
      returnType := i.returns
      isAsync := i.isAsync
      isMethod := (all.pieces (join ", " i.parameters)).head?.any fun p => (receiver? p).isSome } := by
  have hasync : flag "async" i.fragment = (i.isAsync, "fn".toList ++ ' ' :: (qualified i.owner i.name ++
      (i.generics ++ '(' :: (join ", " i.parameters ++ ')' :: writtenReturns i.returns)))) := by
    rw [fragment_eq]
    cases i.isAsync with
    | true => exact flag_append "async" rfl
    | false => exact flag_of_head (c := 'a') rfl (by simp)
  have hfirst : ∃ c u, (c = '<' ∨ c = '(') ∧ i.generics ++
      '(' :: (join ", " i.parameters ++ ')' :: writtenReturns i.returns) = c :: u := by
    cases hg : i.generics with
    | nil => exact ⟨'(', _, .inr rfl, rfl⟩
    | cons c u =>
      have hopen := head?_generics (i.generics ++ [])
      rw [hgenerics [] (by simp), hg] at hopen
      exact ⟨c, _, .inl (by simpa using hopen), rfl⟩
  obtain ⟨c, u, hc, hu⟩ := hfirst
  have hpath : path? (qualified i.owner i.name ++ c :: u) = some (qualified i.owner i.name, c :: u) := by
    refine path?_qualified hname howner ?_ ?_
    · rcases hc with rfl | rfl <;> rfl
    · rcases hc with rfl | rfl <;> simp
  have hstart : trimStart (c :: u) = c :: u := trimStart_cons_of_not (by rcases hc with rfl | rfl <;> rfl) u
  have hclose : group? ('(' :: (join ", " i.parameters ++ ')' :: writtenReturns i.returns)) =
      some (join ", " i.parameters, writtenReturns i.returns) := group?_of_grouped hgroup
  have hreturn : returnType (writtenReturns i.returns) = i.returns := by
    cases hr : i.returns with
    | none => rfl
    | some r => exact (hreturns r hr).returnType_arrow
  rw [signature, trim_fragment hreturns, hasync]
  simp only [keyword?_append (notBefore_isBlank_qualified hname howner _), Option.bind_some, hu, hpath,
    hstart]
  rw [← hu, hgenerics _ (by simp)]
  simp only [hclose, hreturn]
  rfl

/-- What is written of an item is read back with the parts that stand in the source. -/
theorem signature_item {owner : Option Text} {head : Bool × Text} {rest params tail : Text}
    (hname : IsWordRun head.2) (howner : ∀ o ∈ owner, IsWordRun o)
    (hgroup : group? ((generics rest).2.dropWhile isGap) = some (params, tail)) :
    signature (Item.fragment ⟨head.1, owner, head.2, collapse (generics rest).1,
      writtenParameters params, returnType tail⟩) = .ok {
        name := qualified owner head.2 ++ collapse (generics rest).1
        parameters := parameters (collapse params)
        returnType := returnType tail
        isAsync := head.1
        isMethod := (all.pieces params).head?.any fun p => (receiver? p).isSome } := by
  have hreturns (r : Text) (hr : r ∈ returnType tail) : IsReturnType r := isReturnType_of_returnType hr
  have hleft : (generics rest).2 ≠ [] := by
    intro hnil
    rw [hnil] at hgroup
    exact absurd hgroup (by simp [group?, parens, balanced])
  have hgrouped : Grouped (join ", " (writtenParameters params)) (writtenReturns (returnType tail)) :=
    grouped_join (group?_eq_some_iff.1 hgroup).2 fun htail => by rw [htail]; rfl
  have hsignature := signature_fragment
    (i := ⟨head.1, owner, head.2, collapse (generics rest).1, writtenParameters params, returnType tail⟩)
    hname howner (fun u hu => generics_collapse rfl hleft hu) hgrouped hreturns
  simp only [parameters_join, receiver_join] at hsignature
  exact hsignature

theorem trim_fragment_of_item? {owner : Option Text} {head : Bool × Text} {rest : Text} {i : Item}
    (h : item? owner head rest = some i) : trim i.fragment = i.fragment := by
  obtain ⟨params, tail, -, rfl⟩ := item?_eq_some_iff.1 h
  exact trim_fragment fun r hr => isReturnType_of_returnType hr

theorem mem_fragments_iff {source f : Text} : f ∈ fragments source ↔
    ∃ i ∈ items (CommentStyle.slashes.strip source), f = i.fragment := by
  refine mem_distinct_map fun i hi => ⟨fragment_ne_nil i, ?_⟩
  obtain ⟨owner, head, rest, -, hi⟩ := mem_items_iff.1 hi
  exact trim_fragment_of_item? hi

/-- No located function is lost, and every part of its signature is the part that stands in the
    source. -/
theorem signature_of_candidate (source : Text) {owner : Option Text} {head : Bool × Text}
    {rest : Text} {i : Item} (hc : Candidate (CommentStyle.slashes.strip source) owner head rest)
    (hi : item? owner head rest = some i) :
    i.fragment ∈ Language.rust.fragments source ∧
    ∃ params tail, group? ((generics rest).2.dropWhile isGap) = some (params, tail) ∧
      Language.rust.signature i.fragment = .ok {
        name := qualified owner head.2 ++ collapse (generics rest).1
        parameters := parameters (collapse params)
        returnType := returnType tail
        isAsync := head.1
        isMethod := (all.pieces params).head?.any fun p => (receiver? p).isSome } := by
  have hmem : i ∈ items (CommentStyle.slashes.strip source) :=
    mem_items_iff.2 ⟨owner, head, rest, hc, hi⟩
  obtain ⟨params, tail, hgroup, rfl⟩ := item?_eq_some_iff.1 hi
  obtain ⟨hname, howner⟩ := hc.isWordRun
  exact ⟨mem_fragments_iff.2 ⟨_, hmem, rfl⟩, params, tail, hgroup, signature_item hname howner hgroup⟩

/-- A method whose generics hold an arrow and whose receiver has a type. -/
def methodSource : Text :=
  "impl S \x7b\n async fn f<F: Fn() -> u8>(self: &mut S,\n x: T) -> T where \x7b\x7d\n\x7d".toList

/-- What is located in `methodSource`. -/
def methodItem : Item :=
  ⟨true, some "S".toList, "f".toList, "<F: Fn() -> u8>".toList,
    ["&mut self".toList, "x: T".toList], some "T".toList⟩

theorem signature_of_candidate_method :
    ∃ owner head rest, Candidate (CommentStyle.slashes.strip methodSource) owner head rest ∧
      item? owner head rest = some methodItem ∧
      methodItem.fragment = "async fn S::f<F: Fn() -> u8>(&mut self, x: T) -> T".toList ∧
      methodItem.fragment ∈ Language.rust.fragments methodSource ∧
      ∃ params tail, group? ((generics rest).2.dropWhile isGap) = some (params, tail) ∧
        Language.rust.signature methodItem.fragment = .ok {
          name := qualified owner head.2 ++ collapse (generics rest).1
          parameters := parameters (collapse params)
          returnType := returnType tail
          isAsync := head.1
          isMethod := (all.pieces params).head?.any fun p => (receiver? p).isSome } := by
  have hmem : methodItem ∈ items (CommentStyle.slashes.strip methodSource) := by decide +kernel
  obtain ⟨owner, head, rest, hc, hi⟩ := mem_items_iff.1 hmem
  exact ⟨owner, head, rest, hc, hi, by decide +kernel, signature_of_candidate methodSource hc hi⟩

end Synopsis.Rust
