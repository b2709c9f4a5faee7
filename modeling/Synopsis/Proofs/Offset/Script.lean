import Synopsis.Language.ScriptMethod
import Synopsis.Language.ScriptSignature
import Synopsis.Proofs.Offset.Nesting
import Synopsis.Proofs.Script.Reader

/-!
# TypeScript and JavaScript by offset

Every head carries the offset of its name, and the depth tables are looked up there. The name is not
empty, so its offset lies inside the text (`Reads`). The parameters of a head are the span at the
offset of the parenthesis with which it ends.
-/

namespace Synopsis.Offset.Script

open Text
open Synopsis.Script (Entry Head lineLead? typeParameters afterFunction? functionAt? constant? skipType
  arrowAt? forwardRefAt? memberBinding? aliasAt? returnText arrowTail? componentTail functionEntry
  arrowEntry? componentEntry? aliasEntry bindings methodName? modifier? modifiedName? decorator?
  afterArguments? decoratedName? methodAt? classAt? notMethods methodEntry classMethods parameter?
  splitOwner arrowHead? arrowReturn? Header headerName? optionally header? returnType
  functionAt?_eq_some_iff constant?_eq_some_iff arrowAt?_eq_some_iff forwardRefAt?_eq_some_iff
  exists_of_memberBinding? exists_of_aliasAt? methodName?_eq_some_iff exists_of_methodAt?)

/-! ## What the readers take -/

/-- What a reader of heads keeps to: the name stands inside the text at the place, and what is left is
    an end of it. -/
structure Reads (p : Place) (head : Head) (rest : Text) : Prop where
  name : head.nameOffset < p.offset + p.rest.length
  rest : rest <:+ p.rest

theorem offsetOf_lt {p : Place} {t u name rest : Text} (ht : t <:+ p.rest) (hu : u <:+ t)
    (hname : dollarName? u = some (name, rest)) : p.offsetOf t < p.offset + p.rest.length := by
  have hpos : u.length ≠ 0 := by
    intro h
    rw [List.length_eq_zero_iff.1 h] at hname
    cases hname
  have hlen := ht.length_le
  have hlen' := hu.length_le
  rw [Place.offsetOf]
  omega

theorem suffix_of_lineLead? {p : Place} {lead : Text} (h : lineLead? p = some lead) :
    lead <:+ p.rest := by
  unfold lineLead? at h
  split at h
  · cases h
    exact suffix_trimStart _
  · next c cs _ hrest =>
    split at h
    · cases h
      rw [hrest]
      exact (suffix_trimStart cs).trans (List.suffix_cons c cs)
    · cases h
  · cases h

theorem suffix_typeParameters (t : Text) : (typeParameters t).2 <:+ t := by
  unfold typeParameters
  split
  · next params rest h =>
    obtain ⟨u, hu, hrun⟩ := Option.bind_eq_some_iff.1 h
    exact (List.suffix_cons '>' rest).trans ((suffix_of_run? hrun).trans (suffix_of_after? hu))
  · exact List.suffix_refl t

theorem suffix_of_afterFunction? {t rest : Text} (h : afterFunction? t = some rest) : rest <:+ t := by
  obtain ⟨u, hu, h⟩ := Option.bind_eq_some_iff.1 h
  refine List.IsSuffix.trans ?_ (suffix_of_after? hu)
  rcases Option.or_eq_some_iff.1 h with hstar | ⟨-, hblank⟩
  · obtain ⟨v, hv, rfl⟩ := Option.map_eq_some_iff.1 hstar
    exact (suffix_trimStart v).trans ((suffix_of_after? hv).trans (suffix_trimStart u))
  · exact suffix_of_skip1? hblank

/-- The parenthesis that a reader takes last is the first character of an end of the text. -/
theorem cons_suffix_of_char? {c : Char} {t rest : Text} (h : char? c t = some rest) : c :: rest <:+ t :=
  (after?_eq_some.1 h) ▸ List.suffix_refl _

theorem reads_of_functionAt? {p : Place} {head : Head} {rest : Text}
    (h : functionAt? p = some (head, rest)) : Reads p head ('(' :: rest) := by
  obtain ⟨lead, t, name, u, hlead, ht, hname, hv, rfl⟩ := functionAt?_eq_some_iff.1 h
  have hflags := (suffix_flag "async" _).trans
    ((suffix_skipKeyword ["default"] _).trans (suffix_flag "export" lead))
  have hword := (suffix_of_afterFunction? ht).trans (hflags.trans (suffix_of_lineLead? hlead))
  have hparen := (cons_suffix_of_char? hv).trans ((suffix_trimStart _).trans (suffix_typeParameters u))
  exact ⟨offsetOf_lt hword (List.suffix_refl _) hname,
    hparen.trans ((suffix_of_dollarName? hname).trans hword)⟩

theorem reads_of_constant? {p : Place} {lead : Text} (hlead : lead <:+ p.rest) {head : Head}
    {rest : Text} (h : constant? p lead = some (head, rest)) : Reads p head rest := by
  obtain ⟨t, name, ht, hname, rfl⟩ := constant?_eq_some_iff.1 h
  have hword := (suffix_of_keywordBy? ht).trans ((suffix_flag "export" lead).trans hlead)
  exact ⟨offsetOf_lt hword (List.suffix_refl _) hname, (suffix_of_dollarName? hname).trans hword⟩

theorem suffix_skipType (t : Text) : skipType t <:+ t := by
  refine suffix_getD fun rest h => ?_
  obtain ⟨u, hu, h⟩ := Option.bind_eq_some_iff.1 h
  obtain ⟨⟨type, v⟩, hrun, h⟩ := Option.bind_eq_some_iff.1 h
  exact (suffix_of_ahead? h).trans ((suffix_of_run? hrun).trans (suffix_of_after? hu))

theorem reads_of_arrowAt? {p : Place} {head : Head} {rest : Text} (h : arrowAt? p = some (head, rest)) :
    Reads p head ('(' :: rest) := by
  obtain ⟨lead, constant, t, u, hlead, hconstant, hu, hv, rfl⟩ := arrowAt?_eq_some_iff.1 h
  have hreads := reads_of_constant? (suffix_of_lineLead? hlead) hconstant
  have hequals := (suffix_of_after? hu).trans ((suffix_skipType _).trans (suffix_trimStart t))
  have hparen := (cons_suffix_of_char? hv).trans ((suffix_flag "async" _).trans (suffix_trimStart u))
  exact ⟨hreads.name, hparen.trans (hequals.trans hreads.rest)⟩

theorem reads_of_forwardRefAt? {p : Place} {head : Head} {rest : Text}
    (h : forwardRefAt? p = some (head, rest)) : Reads p head rest := by
  obtain ⟨lead, t, u, v, hlead, hconstant, hu, hv, rfl⟩ := forwardRefAt?_eq_some_iff.1 h
  have hreads := reads_of_constant? (suffix_of_lineLead? hlead) hconstant
  have hmember : (after? "React.".toList (trimStart u)).getD (trimStart u) <:+ trimStart u :=
    suffix_getD fun w hw => suffix_of_after? hw
  have hcall := (suffix_trimStart v).trans ((suffix_of_after? hv).trans hmember)
  have hequals := (suffix_trimStart u).trans ((suffix_of_after? hu).trans (suffix_trimStart t))
  exact ⟨hreads.name, hcall.trans (hequals.trans hreads.rest)⟩

theorem reads_of_memberBinding? {p : Place} {lead : Text} (hlead : lead <:+ p.rest) {head : Head}
    {rest : Text} (h : memberBinding? p lead = some (head, rest)) : Reads p head rest := by
  obtain ⟨t, u, chain, hconstant, hu, hchain⟩ := exists_of_memberBinding? h
  have hreads := reads_of_constant? hlead hconstant
  have hequals := (suffix_trimStart u).trans ((suffix_of_after? hu).trans (suffix_trimStart t))
  exact ⟨hreads.name, (suffix_of_run? hchain).trans (hequals.trans hreads.rest)⟩

theorem reads_of_aliasAt? {p : Place} {head : Head} {rest : Text} (h : aliasAt? p = some (head, rest)) :
    Reads p head rest := by
  obtain ⟨lead, hlead, hbinding⟩ := exists_of_aliasAt? h
  exact reads_of_memberBinding? hlead hbinding

theorem reads_of_methodName? {p : Place} {isAsync : Bool} {t : Text} (ht : t <:+ p.rest) {head : Head}
    {rest : Text} (h : methodName? p isAsync t = some (head, rest)) : Reads p head ('(' :: rest) := by
  obtain ⟨sign, r, name, u, hsign, hname, hv, rfl⟩ := methodName?_eq_some_iff.1 h
  have hsign : r <:+ t := by
    rcases hsign with ⟨-, hr⟩ | ⟨-, -, rfl⟩
    · exact suffix_of_after? hr
    · exact List.suffix_refl r
  have hmark : (char? '?' (typeParameters u).2).getD (typeParameters u).2 <:+ (typeParameters u).2 :=
    suffix_getD fun w hw => suffix_of_after? hw
  have hparen := (cons_suffix_of_char? hv).trans
    ((suffix_trimStart _).trans (hmark.trans (suffix_typeParameters u)))
  exact ⟨offsetOf_lt ht hsign hname,
    hparen.trans ((suffix_of_dollarName? hname).trans (hsign.trans ht))⟩

theorem reads_of_modifiedName? {p : Place} {isAsync : Bool} {t : Text} (ht : t <:+ p.rest) {head : Head}
    {rest : Text} (h : modifiedName? p isAsync t = some (head, rest)) : Reads p head ('(' :: rest) := by
  fun_induction modifiedName? p isAsync t with
  | case1 isAsync t w u hmodifier ih =>
    rcases Option.or_eq_some_iff.1 h with h | ⟨-, h⟩
    · obtain ⟨word, -, hword⟩ := List.exists_of_findSome?_eq_some hmodifier
      obtain ⟨v, hv, he⟩ := Option.map_eq_some_iff.1 hword
      obtain ⟨-, rfl⟩ := Prod.mk.inj he
      exact ih ((suffix_of_keywordBy? hv).trans ht) h
    · exact reads_of_methodName? ht h
  | case2 isAsync t hnone => exact reads_of_methodName? ht h

theorem suffix_of_decorator? {t name rest : Text} (h : decorator? t = some (name, rest)) :
    rest <:+ t := by
  obtain ⟨u, hu, h⟩ := Option.bind_eq_some_iff.1 h
  obtain ⟨⟨word, v⟩, hrun, h⟩ := Option.bind_eq_some_iff.1 h
  obtain ⟨-, rfl⟩ := Prod.mk.inj (Option.some.inj h)
  have harguments : (afterArguments? v).getD v <:+ v := by
    refine suffix_getD fun w hw => ?_
    obtain ⟨x, hx, hclose⟩ := Option.bind_eq_some_iff.1 hw
    obtain ⟨y, hopen, rfl⟩ := Option.map_eq_some_iff.1 hx
    exact (suffix_of_after? hclose).trans ((List.dropWhile_suffix _).trans (suffix_of_after? hopen))
  exact (suffix_trimStart _).trans
    (harguments.trans ((suffix_of_run? hrun).trans (suffix_of_after? hu)))

theorem reads_of_decoratedName? {p : Place} {t : Text} (ht : t <:+ p.rest) {head : Head}
    {rest : Text} (h : decoratedName? p t = some (head, rest)) : Reads p head ('(' :: rest) := by
  fun_induction decoratedName? p t with
  | case1 t hnone => exact reads_of_modifiedName? ht h
  | case2 t name u hdecorator ih =>
    rcases Option.or_eq_some_iff.1 h with h | ⟨-, h⟩
    · exact ih ((suffix_of_decorator? hdecorator).trans ht) h
    · obtain ⟨k, -, hk⟩ := List.exists_of_findSome?_eq_some h
      exact reads_of_modifiedName? ((List.drop_suffix _ t).trans ht) hk

theorem reads_of_methodAt? {p : Place} {head : Head} {rest : Text}
    (h : methodAt? p = some (head, rest)) : Reads p head ('(' :: rest) := by
  obtain ⟨t, ht, hmethod⟩ := exists_of_methodAt? h
  exact reads_of_decoratedName? ht hmethod

/-! ## Locating -/

/-- The span of a parameter list from an offset on and the text after it; nothing when it is empty. -/
def listAt (t : Text) (start : Nat) : Except Fault (Option (Text × Text)) := do
  let (params, stop) ← spanAt '(' ')' t start
  if params.isEmpty then return none else return some (params, t.drop stop)

/-- The function at a hit. -/
def functionBy (t : Text) (s : Site Head) : Except Fault (Option Entry) := do
  match ← listAt t (startOf t ('(' :: s.rest)) with
  | none => return none
  | some (params, rest) => return some (.callable s.found.isAsync s.found.name s.found.generics params
      (nonempty? (returnText rest)) none)

/-- The arrow function at a hit. -/
def arrowBy (t : Text) (s : Site Head) : Except Fault (Option Entry) := do
  match ← listAt t (startOf t ('(' :: s.rest)) with
  | none => return none
  | some (params, rest) =>
    match arrowTail? rest with
    | none => return none
    | some returns =>
      return some (.arrow s.found.isExported s.found.isAsync s.found.name params (nonempty? returns))

/-- The first parameter list in a text. -/
def firstList (t : Text) : Except Fault (Option (Text × Text)) :=
  match findAt '(' t 0 with
  | none => .ok none
  | some paren => listAt t paren

/-- The component at a hit: the first parameter list in the arguments of the call. -/
def componentBy (t : Text) (s : Site Head) : Except Fault (Option Entry) := do
  let (_, pos) ← spanAt '<' '>' t (startOf t s.rest)
  let pos ← skipFrom isBlank t pos
  match ← listAt t pos with
  | none => return none
  | some (args, _) =>
    match ← firstList (unwrap args) with
    | none => return none
    | some (params, rest) =>
      return some (.arrow false false s.found.name params (nonempty? (componentTail rest)))

/-- What the hits of a reader give whose names stand at the top level. -/
def topBy (depths : List Nat) (t : Text) (read : Place → Option (Head × Text))
    (give : Site Head → Except Fault (Option Entry)) : Except Fault (List Entry) :=
  filterTop depths (·.found.nameOffset) give (sites read t)

/-- The class at a place of a text. The search goes on behind its block. -/
def classBy (t : Text) (p : Place) : Except Fault (Option ((Text × Text) × Text)) := do
  if !p.isWordStart then return none
  else match (keyword? "class" p.rest).bind dollarName? with
    | none => return none
    | some (name, u) => match ahead? '{' (u.dropWhile fun c => c ≠ '{' && c ≠ ';') with
      | none => return none
      | some z =>
        let brace := startOf t z
        let (block, stop) ← spanAt '{' '}' t brace
        return some ((name, unwrap block), t.drop (max stop (brace + 1)))

/-- The method at a hit. -/
def methodBy (owner body : Text) (s : Site Head) : Except Fault (Option Entry) := do
  match ← listAt body (startOf body ('(' :: s.rest)) with
  | none => return none
  | some (params, rest) =>
    if s.found.name = "constructor".toList then
      return some (.callable false s.found.name [] params none (some owner))
    else return some (.callable s.found.isAsync s.found.name s.found.generics params
      (nonempty? (returnText rest)) (some owner))

/-- The methods of a class body. The tables are looked up for names that may be methods only. -/
def methods (owner body : Text) : Except Fault (List Entry) := do
  let depths ← braceTable body
  let groups ← groupTable body
  (sites methodAt? body).filterMapM fun s => do
    if notMethods.contains s.found.name then return none
    else if !(← topAt depths s.found.nameOffset) then return none
    else if !(← topAt groups s.found.nameOffset) then return none
    else methodBy owner body s

/-- The top-level functions and bindings of a text, kind by kind. -/
def bindings (t : Text) (depths : List Nat) : Except Fault (List Entry) := do
  let functions ← topBy depths t functionAt? (functionBy t)
  let arrows ← topBy depths t arrowAt? (arrowBy t)
  let components ← topBy depths t forwardRefAt? (componentBy t)
  let aliases ← topBy depths t aliasAt? fun s => return some (aliasEntry s)
  return functions ++ arrows ++ components ++ aliases

/-- The methods of the top-level classes of a text. -/
def classMethods (t : Text) (depths : List Nat) : Except Fault (List Entry) := do
  (← sitesBy (classBy t) t).flatMapM fun s => do
    if ← topAt depths s.start then methods s.found.1 s.found.2 else return []

/-- The declarations of a source text. -/
def fragments (source : Text) : Except Fault (List Text) := do
  let t := CommentStyle.slashes.strip source
  let depths ← braceTable t
  let bound ← bindings t depths
  let methods ← classMethods t depths
  return distinct ((bound ++ methods).map Entry.fragment)

/-- The parameter list at the front of a text and the text after it; nothing when it is empty. -/
def list? (t : Text) : Option (Text × Text) := if (parens t).1.isEmpty then none else some (parens t)

theorem list?_paren (t : Text) : list? ('(' :: t) = some (parens ('(' :: t)) := by
  rw [list?, parens, isEmpty_balanced]
  rfl

theorem listAt_startOf {t r : Text} (h : r <:+ t) : listAt t (startOf t r) = .ok (list? r) := by
  have hrest := (suffix_balanced '(' ')' r).trans h
  rw [listAt, spanAt_startOf '(' ')' h, ok_bind, list?, parens]
  simp only [drop_startOf hrest]
  split <;> rfl

theorem functionBy_eq_ok {t : Text} {s : Site Head} (h : '(' :: s.rest <:+ t) :
    functionBy t s = .ok (some (functionEntry s)) := by
  rw [functionBy, listAt_startOf h, list?_paren]
  rfl

theorem arrowBy_eq_ok {t : Text} {s : Site Head} (h : '(' :: s.rest <:+ t) :
    arrowBy t s = .ok ( arrowEntry? s) := by
  rw [arrowBy, listAt_startOf h, list?_paren, ok_bind, arrowEntry?]
  simp only
  cases arrowTail? (parens ('(' :: s.rest)).2 <;> rfl

theorem methodBy_eq_ok (owner : Text) {body : Text} {s : Site Head} (h : '(' :: s.rest <:+ body) :
    methodBy owner body s = .ok (some (methodEntry owner s)) := by
  rw [methodBy, listAt_startOf h, list?_paren, ok_bind, methodEntry]
  simp only
  split <;> rfl

theorem firstList_eq_ok (t : Text) : firstList t = .ok (list? (t.dropWhile (· ≠ '('))) := by
  rw [firstList, findAt_zero, dropWhile_eq_cutAt?]
  cases hcut : cutAt? '(' t with
  | none => rfl
  | some cut =>
    obtain ⟨head, rest⟩ := cut
    have hat := listAt_startOf (List.suffix_append head ('(' :: rest))
    rw [startOf_append] at hat
    rw [eq_append_of_cutAt? hcut]
    simpa using hat

theorem componentBy_eq_ok {t : Text} {s : Site Head} (h : s.rest <:+ t) :
    componentBy t s = .ok ( componentEntry? s) := by
  have hangle := (suffix_balanced '<' '>' s.rest).trans h
  have hblank := (suffix_trimStart _).trans hangle
  have hskip : skipFrom isBlank t _ = .ok (startOf t (trimStart _)) := skipFrom_startOf isBlank hangle
  unfold componentBy componentEntry?
  simp only [spanAt_startOf '<' '>' h, ok_bind, hskip, listAt_startOf hblank, firstList_eq_ok]
  generalize trimStart (balanced '<' '>' s.rest).2 = u
  cases hargs : (parens u).1.isEmpty with
  | true =>
    -- without arguments there is nothing in which a parameter list could be found
    simp only [list?, List.isEmpty_iff.1 hargs]
    rfl
  | false =>
    simp only [list?, hargs, Bool.false_eq_true, if_false]
    generalize parens (List.dropWhile _ (unwrap (parens u).1)) = found
    cases found.1.isEmpty <;> rfl

/-- A block takes at least its opening brace. -/
theorem max_startOf {t u z : Text} (hz : z <:+ t) (hbrace : ahead? '{' u = some z) :
    max (startOf t (balanced '{' '}' z).2) (startOf t z + 1) = startOf t (balanced '{' '}' z).2 := by
  obtain ⟨rfl, hhead⟩ := ahead?_eq_some.1 hbrace
  obtain ⟨v, rfl⟩ := List.head?_eq_some_iff.1 hhead
  have hblock := congrArg List.length (balanced_append '{' '}' ('{' :: v))
  have hne := isEmpty_balanced '{' '}' v
  rw [List.isEmpty_eq_false_iff, ← List.length_pos_iff] at hne
  have hlen := hz.length_le
  rw [List.length_append] at hblock
  refine Nat.max_eq_left ?_
  rw [startOf, startOf]
  omega

theorem classBy_between (a b : Text) :
    classBy (a ++ b) (.between a b) = .ok (classAt? (.between a b)) := by
  unfold classBy classAt?
  cases (Place.between a b).isWordStart with
  | false => rfl
  | true =>
    simp only [Bool.not_true, Bool.false_eq_true, if_false]
    cases hname : (keyword? "class" (Place.between a b).rest).bind dollarName? with
    | none => rfl
    | some named =>
      obtain ⟨name, u⟩ := named
      simp only [Option.bind_eq_bind, Option.bind_some]
      cases hbrace : ahead? '{' (u.dropWhile fun c => c ≠ '{' && c ≠ ';') with
      | none => rfl
      | some z =>
        obtain ⟨v, hv, hdollar⟩ := Option.bind_eq_some_iff.1 hname
        have hz : z <:+ a ++ b := (suffix_of_ahead? hbrace).trans ((List.dropWhile_suffix _).trans
          ((suffix_of_dollarName? hdollar).trans ((suffix_of_keywordBy? hv).trans
            (List.suffix_append a b))))
        have hrest := (suffix_balanced '{' '}' z).trans hz
        simp only [spanAt_startOf '{' '}' hz, ok_bind, max_startOf hz hbrace, drop_startOf hrest]
        rfl

/-- The hits of a reader of heads have their names inside the text and leave an end of it. -/
theorem reads_of_mem_sites {read : Place → Option (Head × Text)} {f : Text → Text}
    (hread : ∀ p head rest, read p = some (head, rest) → Reads p head (f rest)) {t : Text}
    {s : Site Head} (h : s ∈ sites read t) :
    s.found.nameOffset < t.length ∧ f s.rest <:+ t := by
  obtain ⟨a, b, rfl, -, hhit⟩ := exists_cut_of_mem_sites h
  obtain ⟨hname, hrest⟩ := hread _ _ _ hhit
  rw [List.length_append]
  exact ⟨hname, hrest.trans (List.suffix_append a b)⟩

theorem topBy_eq_ok {read : Place → Option (Head × Text)} {f : Text → Text}
    (hread : ∀ p head rest, read p = some (head, rest) → Reads p head (f rest)) {t : Text}
    {giveBy : Site Head → Except Fault (Option Entry)} {give : Site Head → Option Entry}
    (hgive : ∀ s, f s.rest <:+ t → giveBy s = .ok (give s)) :
    topBy (braceDepths t) t read giveBy = .ok (((sites read t).filter fun s =>
      topLevelAt (braceDepths t) s.found.nameOffset).filterMap give) := by
  refine filterTop_eq_ok (fun s hs => ?_) fun s hs => hgive s (reads_of_mem_sites hread hs).2
  rw [length_braceDepths]
  exact (reads_of_mem_sites hread hs).1

theorem methods_eq_ok (owner body : Text) :
    methods owner body = .ok (Synopsis.Script.methods owner body) := by
  have hread (p : Place) (head : Head) (rest : Text) (h : methodAt? p = some (head, rest)) :
      Reads p head ('(' :: rest) := reads_of_methodAt? h
  unfold methods Synopsis.Script.methods
  rw [braceTable_eq_ok, ok_bind, groupTable_eq_ok, ok_bind, ← List.filterMap_eq_map,
    List.filterMap_filter]
  refine filterMapM_eq_ok fun s hs => ?_
  obtain ⟨hname, hrest⟩ := reads_of_mem_sites hread hs
  rw [topAt_eq_ok (by rwa [length_braceDepths]), topAt_eq_ok (by rwa [length_groupDepths]), ok_bind,
    ok_bind, methodBy_eq_ok owner hrest]
  cases notMethods.contains s.found.name <;> cases topLevelAt (braceDepths body) s.found.nameOffset <;>
    cases topLevelAt (groupDepths body) s.found.nameOffset <;> rfl

theorem bindings_eq_ok (t : Text) :
    bindings t (braceDepths t) = .ok (Synopsis.Script.bindings t) := by
  have hfunctions : topBy (braceDepths t) t functionAt? (functionBy t) = .ok _ :=
    topBy_eq_ok (fun _ _ _ h => reads_of_functionAt? h) fun s h => functionBy_eq_ok h
  have harrows : topBy (braceDepths t) t arrowAt? (arrowBy t) = .ok _ :=
    topBy_eq_ok (fun _ _ _ h => reads_of_arrowAt? h) fun s h => arrowBy_eq_ok h
  have hcomponents : topBy (braceDepths t) t forwardRefAt? (componentBy t) = .ok _ :=
    topBy_eq_ok (f := id) (fun _ _ _ h => reads_of_forwardRefAt? h) fun s h => componentBy_eq_ok h
  have haliases : topBy (braceDepths t) t aliasAt? (fun s => return some (aliasEntry s)) = .ok _ :=
    topBy_eq_ok (f := id) (fun _ _ _ h => reads_of_aliasAt? h) fun s h => rfl
  rw [bindings, hfunctions, ok_bind, harrows, ok_bind, hcomponents, ok_bind, haliases, ok_bind,
    List.filterMap_eq_map', List.filterMap_eq_map']
  rfl

theorem flatMap_filter {α β : Type} (p : α → Bool) (f : α → List β) (xs : List α) :
    (xs.filter p).flatMap f = xs.flatMap fun x => if p x then f x else [] := by
  induction xs with
  | nil => rfl
  | cons x xs ih => cases hx : p x <;> simp [hx, ih]

theorem classMethods_eq_ok (t : Text) :
    classMethods t (braceDepths t) = .ok (Synopsis.Script.classMethods t) := by
  rw [classMethods, sitesBy_eq_ok fun a b ht => ht ▸ classBy_between a b, ok_bind]
  unfold Synopsis.Script.classMethods
  rw [flatMap_filter]
  refine flatMapM_eq_ok fun s hs => ?_
  rw [topAt_eq_ok (start_lt_braceDepths hs), ok_bind, methods_eq_ok]
  cases topLevelAt (braceDepths t) s.start <;> rfl

/-- Locating by offset finds the declarations of a source. -/
theorem fragments_eq_ok (source : Text) :
    fragments source = .ok (Synopsis.Script.fragments source) := by
  simp only [fragments, braceTable_eq_ok, ok_bind, bindings_eq_ok, classMethods_eq_ok]
  rfl

/-! ## Signatures -/

/-- The name and type of one piece of a parameter list. -/
def parameter (piece : Text) : Except Fault (Option Parameter) := do
  let t ← if holds "=>".toList piece then pure piece else cutTopBy '=' allPairs piece
  let (name, type) := match ← breakTopBy ':' allPairs t with
    | some (name, type) => (trim name, nonempty? (trim type))
    | none => (t, none)
  return (nonempty? (skipKeywords Synopsis.Script.parameterModifiers name)).map fun name => { name, type }

/-- The parameters of a parameter list. -/
def parameters (t : Text) : Except Fault (List Parameter) := do
  (← splitTop allPairs t).filterMapM parameter

/-- The signature of a written declaration. -/
def signature (fragment : Text) : Except Fault Signature := do
  let (t, className) := splitOwner fragment
  let t := trim t
  if let some ((name, isAsync), rest) := arrowHead? t then
    let (params, stop) ← spanAt '(' ')' t (startOf t rest)
    if params.isEmpty then throw (.rejected .malformedArrow)
    let some returnType := arrowReturn? (t.drop stop) | throw (.rejected .malformedArrow)
    let parameters ← parameters (unwrap params)
    return { name, isAsync, className, returnType, parameters }
  let some (header, rest) := header? t | throw (.rejected .noHeader)
  let some (params, stop) ← groupAt t (startOf t rest) | throw (.rejected .unterminatedParameters)
  let parameters ← parameters params
  return {
    name := header.name
    isAsync := header.isAsync
    className
    parameters
    returnType := returnType (t.drop stop) }

theorem parameter_eq_ok (piece : Text) : parameter piece = .ok (parameter? piece) := by
  unfold parameter parameter?
  simp only [cutTopBy_eq_ok ofText?_allPairs, breakTopBy_eq_ok ofText?_allPairs, ok_bind, pure_eq_ok]
  split <;> rfl

theorem parameters_eq_ok (t : Text) : parameters t = .ok (Synopsis.Script.parameters t) := by
  rw [parameters, splitTop_eq_ok ofText?_allPairs Brackets.usual_all, ok_bind]
  exact filterMapM_eq_ok fun p _ => parameter_eq_ok p

theorem suffix_of_arrowHead? {t rest : Text} {head : Text × Bool}
    (h : arrowHead? t = some (head, rest)) : rest <:+ t ∧ rest.head? = some '(' := by
  unfold arrowHead? at h
  obtain ⟨u, hu, h⟩ := Option.bind_eq_some_iff.1 h
  obtain ⟨⟨name, v⟩, hname, h⟩ := Option.bind_eq_some_iff.1 h
  obtain ⟨w, hw, h⟩ := Option.bind_eq_some_iff.1 h
  obtain ⟨x, hx, h⟩ := Option.bind_eq_some_iff.1 h
  cases h
  have hequals := (suffix_of_after? hw).trans (suffix_trimStart v)
  have hname := (suffix_of_run? hname).trans ((suffix_of_keywordBy? hu).trans (suffix_flag "export" t))
  have hparen := (suffix_of_ahead? hx).trans ((suffix_flag "async" _).trans (suffix_trimStart w))
  refine ⟨hparen.trans (hequals.trans hname), ?_⟩
  obtain ⟨rfl, hhead⟩ := ahead?_eq_some.1 hx
  exact hhead

theorem suffix_of_headerName? {t name rest : Text} (h : headerName? t = some (name, rest)) :
    rest <:+ t := by
  unfold headerName? at h
  obtain ⟨⟨word, u⟩, hword, h⟩ := Option.bind_eq_some_iff.1 h
  obtain ⟨v, hv, h⟩ := Option.bind_eq_some_iff.1 h
  obtain ⟨-, rfl⟩ := Prod.mk.inj (Option.some.inj h)
  refine (suffix_of_ahead? hv).trans ((suffix_trimStart _).trans ?_)
  refine List.IsSuffix.trans ?_ (suffix_of_run? hword)
  split
  · exact List.suffix_refl u
  · next w hw =>
    exact (List.drop_suffix 1 _).trans ((List.dropWhile_suffix _).trans (suffix_of_after? hw))

theorem suffix_of_optionally {α : Type} {words : List String} {next : Bool → Text → Option (α × Text)}
    (hnext : ∀ isThere t found rest, next isThere t = some (found, rest) → rest <:+ t) {t : Text}
    {found : α} {rest : Text} (h : optionally words next t = some (found, rest)) : rest <:+ t := by
  unfold optionally at h
  rcases Option.or_eq_some_iff.1 h with h | ⟨-, h⟩
  · obtain ⟨u, hu, h⟩ := Option.bind_eq_some_iff.1 h
    obtain ⟨word, -, hword⟩ := List.exists_of_findSome?_eq_some hu
    exact (hnext _ _ _ _ h).trans (suffix_of_keywordBy? hword)
  · exact hnext _ _ _ _ h

theorem suffix_of_header? {t rest : Text} {header : Header} (h : header? t = some (header, rest)) :
    rest <:+ t := by
  unfold header? at h
  refine suffix_of_optionally (fun _ t _ _ h => ?_) h
  refine suffix_of_optionally (fun _ t _ _ h => ?_) h
  refine suffix_of_optionally (fun _ t _ _ h => ?_) h
  refine suffix_of_optionally (fun _ t _ _ h => ?_) h
  obtain ⟨⟨name, u⟩, hu, he⟩ := Option.map_eq_some_iff.1 h
  obtain ⟨-, rfl⟩ := Prod.mk.inj he
  exact suffix_of_headerName? hu

theorem signature_eq (fragment : Text) :
    signature fragment = (Synopsis.Script.signature fragment).mapError .rejected := by
  simp only [signature, Synopsis.Script.signature]
  obtain ⟨t, className⟩ := splitOwner fragment
  simp only
  generalize trim t = t
  cases harrow : arrowHead? t with
  | some arrow =>
    obtain ⟨⟨name, isAsync⟩, rest⟩ := arrow
    obtain ⟨hsuffix, hhead⟩ := suffix_of_arrowHead? harrow
    obtain ⟨u, rfl⟩ := List.head?_eq_some_iff.1 hhead
    have hrest := (suffix_balanced '(' ')' _).trans hsuffix
    simp only [spanAt_startOf '(' ')' hsuffix, ok_bind, drop_startOf hrest, parameters_eq_ok,
      isEmpty_balanced, parens]
    cases arrowReturn? (balanced '(' ')' ('(' :: u)).2 <;> rfl
  | none =>
    cases hheader : header? t with
    | none => rfl
    | some found =>
      obtain ⟨header, rest⟩ := found
      have hsuffix := suffix_of_header? hheader
      simp only [groupAt_startOf hsuffix, ok_bind]
      cases hgroup : group? rest with
      | none => rfl
      | some g =>
        simp only [Option.map_some, parameters_eq_ok, ok_bind,
          drop_startOf ((suffix_of_group? hgroup).trans hsuffix)]
        rfl

end Synopsis.Offset.Script
