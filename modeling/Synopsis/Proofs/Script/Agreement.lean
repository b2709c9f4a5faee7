import Synopsis.Proofs.Language
import Synopsis.Proofs.Scan.Site
import Synopsis.Proofs.Script.Reader

/-!
# TypeScript and JavaScript: what is located is what is read back

Functions, methods and bindings are written in two shapes, a header with a parameter list and a
constant bound to an arrow. The reader tells the shapes apart by words that may be missing, and any of
those words may also be the name of a function. What is written decides between the two readings:

* a word that is a name is followed by its type parameters or its parameter list and by no blank, so
  it is not taken for a modifier (`keyword?_name`);
* the owner of a method stands behind the first at sign (`splitOwner_fragment`).

So every located entry with a closed parameter list and no at sign of its own is read back
(`signature_fragment`).
-/

namespace Synopsis.Script

open Text

/-- The entries of a text without comments: functions, bindings, then methods. -/
def entries (t : Text) : List Entry := bindings t ++ classMethods t

/-- The parameter list of an entry, with its parentheses. -/
def Entry.list : Entry → Text
  | .callable _ _ _ params _ _ => params
  | .arrow _ _ _ params _ => params

/-- The class of a method. -/
def Entry.owner? : Entry → Option Text
  | .callable _ _ _ _ _ owner => owner
  | .arrow _ _ _ _ _ => none

/-- What a located entry says. -/
def Entry.signature : Entry → Signature
  | .callable isAsync name own params returns owner =>
    { name := name ++ own
      parameters := Script.parameters (unwrap params)
      returnType := returns
      isAsync
      className := owner }
  | .arrow _ isAsync name params returns =>
    { name
      parameters := Script.parameters (unwrap params)
      returnType := returns
      isAsync }

/-- The first parenthesis of a list is matched by its last. -/
def Closed (list : Text) : Prop :=
  ∃ inside, list = '(' :: inside ++ [')'] ∧ depthAfter '(' ')' 1 inside = some 1

theorem closed_iff {list : Text} : Closed list ↔
    list = '(' :: unwrap list ++ [')'] ∧ depthAfter '(' ')' 1 (unwrap list) = some 1 := by
  constructor
  · rintro ⟨inside, rfl, hinside⟩
    rw [unwrap_cons_concat]
    exact ⟨rfl, hinside⟩
  · rintro ⟨hlist, hinside⟩
    exact ⟨unwrap list, hlist, hinside⟩

instance : DecidablePred Closed := fun _ => decidable_of_iff _ closed_iff.symm

/-- An entry in whose fragment no at sign stands but that of the owner marker. -/
def Entry.Unmarked (e : Entry) : Prop := e.fragment.count '@' ≤ e.owner?.toList.length

instance : DecidablePred Entry.Unmarked := fun e =>
  inferInstanceAs (Decidable (e.fragment.count '@' ≤ e.owner?.toList.length))

theorem Entry.Unmarked.of_not_mem {e : Entry} (h : '@' ∉ e.fragment) : e.Unmarked := by
  unfold Entry.Unmarked
  rw [List.count_eq_zero.2 h]
  exact Nat.zero_le _

/-- Whether a character may occur in the name of a function or method. -/
def isCallableChar (c : Char) : Bool := isDollarWord c || c == '#'

/-- Type parameters as they are written, or none. -/
def IsGenerics (own : Text) : Prop :=
  own = [] ∨ ∃ g, g ≠ [] ∧ '>' ∉ g ∧ own = '<' :: g ++ ['>']

/-- The name and the type parameters of a function or method. -/
structure IsHead (name own : Text) : Prop where
  ne_nil : name ≠ []
  chars : name.all isCallableChar = true
  generics : IsGenerics own

/-- A return text that ends where it is written to end. -/
structure IsReturnText (r : Text) : Prop where
  ne_nil : r ≠ []
  trimmed : trim r = r
  semicolon_not_mem : ';' ∉ r
  open_not_mem : '{' ∉ r

/-- An entry that can be told apart from what is written around its parts. -/
inductive Entry.WellFormed : Entry → Prop
  | callable {isAsync : Bool} {name own params : Text} {returns owner : Option Text} :
      IsHead name own → (∀ r ∈ returns, IsReturnText r) → (∀ o ∈ owner, isDollarName o = true) →
      WellFormed (.callable isAsync name own params returns owner)
  | arrow {isExported isAsync : Bool} {name params : Text} {returns : Option Text} :
      isDollarName name = true → (∀ r ∈ returns, r ≠ [] ∧ trim r = r) →
      WellFormed (.arrow isExported isAsync name params returns)

/-! ## Located entries are well formed -/

theorem isHead_of_isDollarName {name own : Text} (h : isDollarName name = true)
    (hown : IsGenerics own) : IsHead name own := by
  obtain ⟨hne, hall⟩ := all_isDollarWord h
  refine ⟨hne, List.all_eq_true.2 fun c hc => ?_, hown⟩
  rw [isCallableChar, List.all_eq_true.1 hall c hc, Bool.true_or]

theorem isGenerics_typeParameters (t : Text) : IsGenerics (typeParameters t).1 := by
  unfold typeParameters
  split
  · next params rest h =>
    obtain ⟨u, -, hrun⟩ := Option.bind_eq_some_iff.1 h
    obtain ⟨-, hne, hall, -⟩ := eq_append_of_run? hrun
    exact .inr ⟨params, hne, not_mem_of_all hall (by simp), rfl⟩
  · exact .inl rfl

theorem isHead_of_functionAt? {p : Place} {head : Head} {rest : Text}
    (h : functionAt? p = some (head, rest)) : IsHead head.name head.generics := by
  obtain ⟨lead, t, name, u, -, -, hname, -, rfl⟩ := functionAt?_eq_some_iff.1 h
  exact isHead_of_isDollarName (isDollarName_of_dollarName? hname) (isGenerics_typeParameters u)

theorem isHead_of_methodName? {p : Place} {isAsync : Bool} {t rest : Text} {head : Head}
    (h : methodName? p isAsync t = some (head, rest)) : IsHead head.name head.generics := by
  obtain ⟨sign, r, name, u, hsign, hname, -, rfl⟩ := methodName?_eq_some_iff.1 h
  have hhead := isHead_of_isDollarName (isDollarName_of_dollarName? hname) (isGenerics_typeParameters u)
  rcases hsign with ⟨rfl, -⟩ | ⟨rfl, -, -⟩
  · exact ⟨List.cons_ne_nil '#' name, hhead.chars, hhead.generics⟩
  · exact hhead

/-- However many modifiers are taken, a method name is read behind them. -/
theorem isHead_of_modifiedName? {p : Place} {isAsync : Bool} {t rest : Text} {head : Head}
    (h : modifiedName? p isAsync t = some (head, rest)) : IsHead head.name head.generics := by
  fun_induction modifiedName? p isAsync t with
  | case1 isAsync t w u hmodifier ih =>
    rcases Option.or_eq_some_iff.1 h with h | ⟨-, h⟩
    · exact ih h
    · exact isHead_of_methodName? h
  | case2 isAsync t hmodifier => exact isHead_of_methodName? h

/-- However many decorators are taken, a modified name is read behind them. -/
theorem isHead_of_decoratedName? {p : Place} {t rest : Text} {head : Head}
    (h : decoratedName? p t = some (head, rest)) : IsHead head.name head.generics := by
  fun_induction decoratedName? p t with
  | case1 t hdecorator => exact isHead_of_modifiedName? h
  | case2 t name u hdecorator ih =>
    rcases Option.or_eq_some_iff.1 h with h | ⟨-, h⟩
    · exact ih h
    · obtain ⟨k, -, h⟩ := List.exists_of_findSome?_eq_some h
      exact isHead_of_modifiedName? h

theorem isHead_of_methodAt? {p : Place} {head : Head} {rest : Text}
    (h : methodAt? p = some (head, rest)) : IsHead head.name head.generics := by
  obtain ⟨t, -, hmethod⟩ := exists_of_methodAt? h
  exact isHead_of_decoratedName? hmethod

theorem isDollarName_of_constant? {p : Place} {lead rest : Text} {head : Head}
    (h : constant? p lead = some (head, rest)) : isDollarName head.name = true := by
  obtain ⟨t, name, -, hname, rfl⟩ := constant?_eq_some_iff.1 h
  exact isDollarName_of_dollarName? hname

/-- A constant is read up to its name. -/
theorem constant?_append (p : Place) (isExported : Bool) {name : Text} (hname : isDollarName name = true)
    (rest : Text) (hrest : notBefore isDollarWord rest = true) :
    constant? p ((if isExported then "export ".toList else []) ++ ("const ".toList ++ (name ++ rest))) =
      some ({ isExported, name, nameOffset := p.offsetOf (name ++ rest) }, rest) := by
  have hexport (t : Text) : flag "export" ((if isExported then "export ".toList else []) ++
      ("const ".toList ++ t)) = (isExported, "const ".toList ++ t) := by
    cases isExported with
    | true => exact flag_append "export" rfl
    | false => exact flag_of_head (c := 'e') rfl (show some 'c' ≠ some 'e' by decide)
  have hconst : keyword? "const" ("const ".toList ++ (name ++ rest)) = some (name ++ rest) := by
    refine keyword?_append ?_
    obtain ⟨c, n, rfl⟩ := List.exists_cons_of_ne_nil (all_isDollarWord hname).1
    simp [notBefore, solid_of_isDollarName hname c List.mem_cons_self]
  refine constant?_eq_some_iff.2 ⟨name ++ rest, name, ?_, dollarName?_append hname hrest, ?_⟩
  · rw [hexport]
    exact hconst
  · rw [hexport]

theorem isDollarName_of_arrowAt? {p : Place} {rest : Text} {head : Head}
    (h : arrowAt? p = some (head, rest)) : isDollarName head.name = true := by
  obtain ⟨lead, constant, t, u, -, hconstant, -, -, rfl⟩ := arrowAt?_eq_some_iff.1 h
  show isDollarName constant.name = true
  exact isDollarName_of_constant? hconstant

theorem isDollarName_of_forwardRefAt? {p : Place} {rest : Text} {head : Head}
    (h : forwardRefAt? p = some (head, rest)) : isDollarName head.name = true := by
  obtain ⟨lead, t, u, v, -, hconstant, -⟩ := forwardRefAt?_eq_some_iff.1 h
  exact isDollarName_of_constant? hconstant

theorem isDollarName_of_aliasAt? {p : Place} {rest : Text} {head : Head}
    (h : aliasAt? p = some (head, rest)) : isDollarName head.name = true := by
  obtain ⟨lead, -, hbinding⟩ := exists_of_aliasAt? h
  obtain ⟨t, u, chain, hconstant, -, -⟩ := exists_of_memberBinding? hbinding
  exact isDollarName_of_constant? hconstant

theorem isDollarName_of_classAt? {p : Place} {name body rest : Text}
    (h : classAt? p = some ((name, body), rest)) : isDollarName name = true := by
  unfold classAt? at h
  split at h
  · cases h
  · obtain ⟨⟨found, t⟩, hname, h⟩ := Option.bind_eq_some_iff.1 h
    obtain ⟨u, -, h⟩ := Option.bind_eq_some_iff.1 h
    obtain ⟨⟨rfl, -⟩, -⟩ := And.imp_left Prod.mk.inj (Prod.mk.inj (Option.some.inj h))
    obtain ⟨v, -, hname⟩ := Option.bind_eq_some_iff.1 hname
    exact isDollarName_of_dollarName? hname

theorem isReturnText_of_returnText {t r : Text} (h : nonempty? (returnText t) = some r) :
    IsReturnText r := by
  obtain ⟨hne, rfl⟩ := nonempty?_eq_some.1 h
  unfold returnText at hne ⊢
  split at hne
  · next u hu =>
    exact ⟨hne, trim_trim _, not_mem_trim_takeWhile rfl _, not_mem_trim_takeWhile rfl _⟩
  · exact absurd rfl hne

theorem trim_of_arrowType? {stops : Char → Bool} {t r : Text} (h : arrowType? stops t = some r) :
    trim r = r := by
  obtain ⟨u, rfl⟩ := exists_of_arrowType? h
  exact trim_trim _

theorem trim_of_arrowTail? {t r : Text} (h : arrowTail? t = some r) : trim r = r := by
  unfold arrowTail? at h
  rcases Option.or_eq_some_iff.1 h with h | ⟨-, h⟩
  · exact trim_of_arrowType? h
  · obtain ⟨u, -, rfl⟩ := Option.map_eq_some_iff.1 h
    rfl

theorem trim_componentTail (t : Text) : trim (componentTail t) = componentTail t := by
  unfold componentTail
  cases h : arrowType? (fun c => c == '=' || c == ')' || c == '\n') t with
  | none => rfl
  | some r => exact trim_of_arrowType? h

theorem wellFormed_functionEntry {s : Site Head} (h : IsHead s.found.name s.found.generics) :
    (functionEntry s).WellFormed :=
  .callable h (fun _ hr => isReturnText_of_returnText hr) (fun _ ho => nomatch ho)

theorem wellFormed_of_arrowEntry? {s : Site Head} {e : Entry}
    (hname : isDollarName s.found.name = true) (h : arrowEntry? s = some e) : e.WellFormed := by
  obtain ⟨returns, hreturns, rfl⟩ := arrowEntry?_eq_some_iff.1 h
  refine .arrow hname fun r hr => ?_
  obtain ⟨hne, rfl⟩ := nonempty?_eq_some.1 hr
  exact ⟨hne, trim_of_arrowTail? hreturns⟩

theorem wellFormed_of_componentEntry? {s : Site Head} {e : Entry}
    (hname : isDollarName s.found.name = true) (h : componentEntry? s = some e) : e.WellFormed := by
  obtain ⟨t, -, -, rfl⟩ := componentEntry?_eq_some_iff.1 h
  refine .arrow hname fun r hr => ?_
  obtain ⟨hne, rfl⟩ := nonempty?_eq_some.1 hr
  exact ⟨hne, trim_componentTail _⟩

theorem wellFormed_aliasEntry {s : Site Head} (h : isDollarName s.found.name = true) :
    (aliasEntry s).WellFormed :=
  .arrow h fun _ hr => nomatch hr

theorem wellFormed_methodEntry {owner : Text} {s : Site Head} (howner : isDollarName owner = true)
    (h : IsHead s.found.name s.found.generics) : (methodEntry owner s).WellFormed := by
  have hmarker (o : Text) (ho : o ∈ some owner) : isDollarName o = true := by
    obtain rfl := Option.mem_some.1 ho
    exact howner
  unfold methodEntry
  dsimp only
  split
  · exact .callable ⟨h.ne_nil, h.chars, .inl rfl⟩ (fun _ hr => nomatch hr) hmarker
  · exact .callable h (fun _ hr => isReturnText_of_returnText hr) hmarker

/-- A binding is a function, an arrow function, a component or a renaming. -/
theorem bindings_cases {t : Text} {e : Entry} (h : e ∈ bindings t) :
    (∃ s ∈ sites functionAt? t, e = functionEntry s) ∨
    (∃ s ∈ sites arrowAt? t, arrowEntry? s = some e) ∨
    (∃ s ∈ sites forwardRefAt? t, componentEntry? s = some e) ∨
    ∃ s ∈ sites aliasAt? t, e = aliasEntry s := by
  unfold bindings at h
  rcases List.mem_append.1 h with h | h
  · rcases List.mem_append.1 h with h | h
    · rcases List.mem_append.1 h with h | h
      · obtain ⟨s, hs, rfl⟩ := List.mem_map.1 h
        exact .inl ⟨s, (List.mem_filter.1 hs).1, rfl⟩
      · obtain ⟨s, hs, he⟩ := List.mem_filterMap.1 h
        exact .inr (.inl ⟨s, (List.mem_filter.1 hs).1, he⟩)
    · obtain ⟨s, hs, he⟩ := List.mem_filterMap.1 h
      exact .inr (.inr (.inl ⟨s, (List.mem_filter.1 hs).1, he⟩))
  · obtain ⟨s, hs, rfl⟩ := List.mem_map.1 h
    exact .inr (.inr (.inr ⟨s, (List.mem_filter.1 hs).1, rfl⟩))

theorem wellFormed_of_mem_bindings {t : Text} {e : Entry} (h : e ∈ bindings t) : e.WellFormed := by
  rcases bindings_cases h with ⟨s, hs, rfl⟩ | ⟨s, hs, he⟩ | ⟨s, hs, he⟩ | ⟨s, hs, rfl⟩
  · obtain ⟨a, b, -, -, hread⟩ := exists_cut_of_mem_sites hs
    exact wellFormed_functionEntry (isHead_of_functionAt? hread)
  · obtain ⟨a, b, -, -, hread⟩ := exists_cut_of_mem_sites hs
    exact wellFormed_of_arrowEntry? (isDollarName_of_arrowAt? hread) he
  · obtain ⟨a, b, -, -, hread⟩ := exists_cut_of_mem_sites hs
    exact wellFormed_of_componentEntry? (isDollarName_of_forwardRefAt? hread) he
  · obtain ⟨a, b, -, -, hread⟩ := exists_cut_of_mem_sites hs
    exact wellFormed_aliasEntry (isDollarName_of_aliasAt? hread)

theorem exists_of_mem_methods {owner body : Text} {e : Entry} (h : e ∈ methods owner body) :
    ∃ s ∈ sites methodAt? body, e = methodEntry owner s := by
  unfold methods at h
  obtain ⟨s, hs, rfl⟩ := List.mem_map.1 h
  exact ⟨s, (List.mem_filter.1 hs).1, rfl⟩

theorem exists_of_mem_classMethods {t : Text} {e : Entry} (h : e ∈ classMethods t) :
    ∃ c ∈ sites classAt? t, e ∈ methods c.found.1 c.found.2 := by
  unfold classMethods at h
  obtain ⟨c, hc, he⟩ := List.mem_flatMap.1 h
  exact ⟨c, (List.mem_filter.1 hc).1, he⟩

theorem wellFormed_of_mem_classMethods {t : Text} {e : Entry} (h : e ∈ classMethods t) :
    e.WellFormed := by
  obtain ⟨c, hc, he⟩ := exists_of_mem_classMethods h
  obtain ⟨s, hs, rfl⟩ := exists_of_mem_methods he
  obtain ⟨a, b, -, -, hclass⟩ := exists_cut_of_mem_sites hc
  obtain ⟨a', b', -, -, hmethod⟩ := exists_cut_of_mem_sites hs
  exact wellFormed_methodEntry (isDollarName_of_classAt? hclass) (isHead_of_methodAt? hmethod)

theorem wellFormed_of_mem_entries {t : Text} {e : Entry} (h : e ∈ entries t) : e.WellFormed := by
  rcases List.mem_append.1 h with h | h
  · exact wellFormed_of_mem_bindings h
  · exact wellFormed_of_mem_classMethods h

/-! ## Owner markers -/

theorem ownerAt?_eq_none {p : Place} (h : p.rest.head? ≠ some '@') : ownerAt? p = none := by
  unfold ownerAt?
  rw [after?_eq_none_of_head (c := '@') rfl h]
  rfl

theorem splitOwner_eq_self {t : Text} (h : '@' ∉ t) : splitOwner t = (t, none) := by
  have hnone : firstSite? ownerAt? t = none := by
    refine firstSite?_eq_none fun a b hab => ownerAt?_eq_none ?_
    intro hb
    exact h (hab ▸ List.mem_append_right a (List.mem_of_mem_head? hb))
  unfold splitOwner
  rw [hnone]

theorem splitOwner_of_none {t : Text} (h : (splitOwner t).2 = none) : (splitOwner t).1 = t := by
  unfold splitOwner at h ⊢
  split at h
  · cases h
  · rfl

theorem ownerAt?_eq_some {p : Place} {o rest : Text} (h : ownerAt? p = some (o, rest)) :
    p.rest = "@class:".toList ++ (o ++ rest) ∧ o.all isDollarWord = true := by
  obtain ⟨t, ht, hrun⟩ := Option.bind_eq_some_iff.1 h
  obtain ⟨rfl, -, hall, -⟩ := eq_append_of_run? hrun
  exact ⟨after?_eq_some.1 ht, hall⟩

/-- An owner is taken out where its marker stands, or further on. -/
theorem splitOwner_cons (c : Char) (t : Text) : splitOwner (c :: t) =
    match ownerAt? ⟨none, 0, c :: t⟩ with
    | some (o, rest) => (rest, some o)
    | none => (c :: (splitOwner t).1, (splitOwner t).2) := by
  have hshift : sitesFrom ownerAt? 0 (some c) 1 t =
      (sitesFrom ownerAt? 0 none 0 t).map fun s => { s with start := s.start + 1 } :=
    sitesFrom_shift (fun _ _ _ _ _ => rfl) 0 (some c) none 0 1 t
  unfold splitOwner firstSite? sites
  rw [sitesFrom]
  cases ownerAt? ⟨none, 0, c :: t⟩ with
  | some hit => rfl
  | none =>
    dsimp only
    rw [hshift, List.head?_map]
    cases (sitesFrom ownerAt? 0 none 0 t).head? <;> rfl

theorem splitOwner_append_of_not_mem {s : Text} (hs : '@' ∉ s) (t : Text) :
    splitOwner (s ++ t) = (s ++ (splitOwner t).1, (splitOwner t).2) := by
  induction s with
  | nil => rfl
  | cons c s ih =>
    obtain ⟨hc, hs⟩ := not_or.1 (mt List.mem_cons.2 hs)
    have hnone : ownerAt? ⟨none, 0, c :: (s ++ t)⟩ = none :=
      ownerAt?_eq_none (by simpa using Ne.symm hc)
    rw [List.cons_append, splitOwner_cons, hnone, ih hs]
    rfl

/-- What cannot belong to a marker ends it: the first marker is in front of such a character, or it is
    behind it. -/
theorem splitOwner_append_cons_eq {c : Char} (hc : c ∉ "@class:".toList) (hword : isDollarWord c = false)
    (s t : Text) : splitOwner (s ++ c :: t) =
      if (splitOwner s).2.isSome then ((splitOwner s).1 ++ c :: t, (splitOwner s).2)
      else (s ++ c :: (splitOwner t).1, (splitOwner t).2) := by
  have hread (s : Text) : ownerAt? ⟨none, 0, s ++ c :: t⟩ =
      (ownerAt? ⟨none, 0, s⟩).map fun m => (m.1, m.2 ++ c :: t) := by
    unfold ownerAt?
    rw [after?_append_cons hc]
    cases after? "@class:".toList s with
    | none => rfl
    | some u => exact run?_append_cons hword u t
  induction s with
  | nil =>
    have hnot : '@' ∉ [c] := fun hmem => hc (List.mem_singleton.1 hmem ▸ List.mem_cons_self)
    exact splitOwner_append_of_not_mem hnot t
  | cons x s ih =>
    rw [List.cons_append, splitOwner_cons, ← List.cons_append, hread, splitOwner_cons, ih]
    cases ownerAt? ⟨none, 0, x :: s⟩ with
    | some m => rfl
    | none =>
      dsimp only [Option.map_none]
      split <;> rfl

/-- A marker is looked for in front of such a character only, when there is no at sign behind it. -/
theorem splitOwner_append_cons {c : Char} (hc : c ∉ "@class:".toList) (hword : isDollarWord c = false)
    (s : Text) {t : Text} (ht : '@' ∉ t) :
    splitOwner (s ++ c :: t) = ((splitOwner s).1 ++ c :: t, (splitOwner s).2) := by
  rw [splitOwner_append_cons_eq hc hword, splitOwner_eq_self ht]
  split
  · rfl
  · next hnone =>
    have howner : (splitOwner s).2 = none := by simpa using hnone
    rw [splitOwner_of_none howner, howner]

/-- No parenthesis belongs to a marker. -/
theorem depthAfter_splitOwner (d : Nat) (t : Text) :
    depthAfter '(' ')' d (splitOwner t).1 = depthAfter '(' ')' d t := by
  induction t generalizing d with
  | nil => rfl
  | cons c t ih =>
    rw [splitOwner_cons]
    cases h : ownerAt? ⟨none, 0, c :: t⟩ with
    | none =>
      dsimp only
      rw [depthAfter, depthAfter]
      simp only [ih]
    | some hit =>
      obtain ⟨ht, hall⟩ := ownerAt?_eq_some h
      have hfree {x : Char} (hlead : x ∉ "@class:".toList) (hx : isDollarWord x = false) :
          x ∉ "@class:".toList ++ hit.1 := by
        rw [List.mem_append, not_or]
        exact ⟨hlead, not_mem_of_all hall hx⟩
      have hmarker : depthAfter '(' ')' d ("@class:".toList ++ hit.1) = some d :=
        depthAfter_of_not_mem (hfree (by decide) (by decide +kernel))
          (hfree (by decide) (by decide +kernel)) d
      rw [show c :: t = _ from ht, ← List.append_assoc, depthAfter_append, hmarker, Option.bind_some]

/-- The marker at the end of a fragment is the first, when no at sign stands before it. -/
theorem splitOwner_ownerMarker {t o : Text} (ht : '@' ∉ t) (ho : isDollarName o = true) :
    splitOwner (t ++ ' ' :: ownerMarker o) = (t ++ [' '], some o) := by
  have hread : ownerAt? (.between (t ++ [' ']) (ownerMarker o)) = some (o, []) := by
    have hafter : after? "@class:".toList (ownerMarker o) = some o := after?_append _ o
    obtain ⟨hne, hall⟩ := all_isDollarWord ho
    have hrun := run?_append (t := []) hne hall rfl
    rw [List.append_nil] at hrun
    unfold ownerAt? Place.between
    rw [hafter, Option.bind_some, hrun]
  have hfirst : firstSite? ownerAt? (t ++ [' '] ++ ownerMarker o) =
      some ⟨(t ++ [' ']).length, o, []⟩ := by
    refine firstSite?_append (List.cons_ne_nil _ _) (fun a₁ a₂ hne heq => ?_) hread
    obtain ⟨x, a₂, rfl⟩ := List.exists_cons_of_ne_nil hne
    have hx : x ≠ '@' := by
      rintro rfl
      have hmem : '@' ∈ t ++ [' '] := heq ▸ List.mem_append_right a₁ List.mem_cons_self
      simp [ht] at hmem
    refine ownerAt?_eq_none ?_
    rw [Place.between, List.cons_append, List.head?_cons, Ne, Option.some.injEq]
    exact hx
  unfold splitOwner
  rw [show t ++ ' ' :: ownerMarker o = t ++ [' '] ++ ownerMarker o by simp, hfirst]
  simp only [List.take_left, List.append_nil]

/-! ## Headers -/

/-- What stands after the parameters of a header. -/
def writtenReturns (returns : Option Text) : Text := (returns.map (": ".toList ++ ·)).getD []

/-- A header from its name on. -/
def writtenName (name own inside : Text) (returns : Option Text) : Text :=
  name ++ (own ++ '(' :: (inside ++ ')' :: writtenReturns returns))

/-- A header written without its owner. -/
def writtenHeader (isAsync : Bool) (name own inside : Text) (returns : Option Text) : Text :=
  (if isAsync then "async ".toList else []) ++ writtenName name own inside returns

section Header

variable {isAsync : Bool} {name own inside : Text} {returns owner : Option Text}

theorem isBlank_of_isCallableChar {c : Char} (h : isCallableChar c = true) : isBlank c = false := by
  unfold isCallableChar at h
  rcases Bool.or_eq_true_iff.1 h with h | h
  · exact isBlank_of_isDollarWord h
  · rw [eq_of_beq h]
    rfl

/-- What a header is read from: a name, and brackets behind it up to the first closing one. -/
structure IsCallee (name own : Text) : Prop where
  ne_nil : name ≠ []
  chars : name.all isCallableChar = true
  brackets : own = [] ∨ ∃ g, '>' ∉ g ∧ own = '<' :: g ++ ['>']

/-- A name with the brackets behind it, as it is read: empty brackets are left out. -/
def calleeName (name own : Text) : Text := if own = "<>".toList then name else name ++ own

theorem IsHead.isCallee (h : IsHead name own) : IsCallee name own where
  ne_nil := h.ne_nil
  chars := h.chars
  brackets := h.generics.imp_right fun ⟨g, _, hg, hown⟩ => ⟨g, hg, hown⟩

theorem IsHead.calleeName_eq (h : IsHead name own) : calleeName name own = name ++ own := by
  refine if_neg fun hempty => ?_
  rcases h.generics with rfl | ⟨g, hne, -, rfl⟩
  · cases hempty
  · obtain ⟨c, g, rfl⟩ := List.exists_cons_of_ne_nil hne
    simp at hempty

theorem IsCallee.solid (h : IsCallee name own) : ∀ c ∈ name, isBlank c = false := fun c hc =>
  isBlank_of_isCallableChar (List.all_eq_true.1 h.chars c hc)

theorem IsCallee.head?_not_blank (h : IsCallee name own) (t : Text) :
    (name ++ t).head?.any isBlank = false := by
  obtain ⟨c, n, rfl⟩ := List.exists_cons_of_ne_nil h.ne_nil
  exact h.solid c List.mem_cons_self

/-- Behind its name a header goes on with an angle bracket or a parenthesis. -/
theorem IsCallee.exists_cons (h : IsCallee name own) (rest : Text) :
    ∃ c u, own ++ '(' :: rest = c :: u ∧ (c = '<' ∨ c = '(') := by
  rcases h.brackets with rfl | ⟨g, -, rfl⟩
  · exact ⟨'(', rest, rfl, .inr rfl⟩
  · exact ⟨'<', g ++ ['>'] ++ '(' :: rest, rfl, .inl rfl⟩

/-- The name of a header is not taken for a modifier, whatever it is. -/
theorem keyword?_name (h : IsCallee name own) {word : String}
    (hword : '<' ∉ word.toList ∧ '(' ∉ word.toList) (rest : Text) :
    keyword? word (name ++ (own ++ '(' :: rest)) = none := by
  obtain ⟨c, u, hcu, hc⟩ := h.exists_cons rest
  rw [hcu]
  rcases hc with rfl | rfl
  · exact keyword?_eq_none_of_solid h.solid rfl hword.1 u
  · exact keyword?_eq_none_of_solid h.solid rfl hword.2 u

theorem headerName?_name (h : IsCallee name own) (rest : Text) :
    headerName? (name ++ (own ++ '(' :: rest)) = some (calleeName name own, '(' :: rest) := by
  obtain ⟨c, u, hcu, hc⟩ := h.exists_cons rest
  have hrun : run? (fun c => isDollarWord c || c == '#') (name ++ (own ++ '(' :: rest)) =
      some (name, own ++ '(' :: rest) := by
    refine run?_append h.ne_nil h.chars ?_
    rw [hcu]
    rcases hc with rfl | rfl <;> rfl
  have hopen (t : Text) : ahead? '(' (trimStart ('(' :: t)) = some ('(' :: t) := rfl
  unfold headerName? calleeName
  rw [hrun]
  rcases h.brackets with rfl | ⟨g, hg, rfl⟩
  · rw [if_neg (by decide), List.append_nil]
    rfl
  · have hchar (t : Text) : char? '<' ('<' :: g ++ ['>'] ++ t) = some (g ++ '>' :: t) := by
      simp [char?, after?]
    have hcut (t : Text) : (g ++ '>' :: t).takeWhile (· ≠ '>') = g ∧
        (g ++ '>' :: t).dropWhile (· ≠ '>') = '>' :: t := by
      refine takeWhile_append_of_all (List.all_eq_true.2 fun x hx => ?_) (by simp [notBefore])
      exact decide_eq_true fun he => hg (he ▸ hx)
    simp only [Option.bind_eq_bind, Option.bind_some, hchar, (hcut _).1, (hcut _).2, List.drop_one,
      List.tail_cons, hopen]
    cases g with
    | nil => rfl
    | cons c g =>
      rw [if_neg (by simp), if_neg (by simp), List.append_assoc]
      rfl

theorem optionally_of_none {α : Type} {words : List String} {next : Bool → Text → Option α} {t : Text}
    (h : ∀ w ∈ words, keyword? w t = none) : optionally words next t = next false t := by
  unfold optionally
  rw [List.findSome?_eq_none_iff.2 h]
  rfl

/-- What a header may start with. -/
def asyncText (isAsync : Bool) : Text := if isAsync then "async ".toList else []

theorem header?_name (h : IsCallee name own) (isAsync : Bool) (rest : Text) :
    header? (asyncText isAsync ++ (name ++ (own ++ '(' :: rest))) =
      some (⟨isAsync, calleeName name own⟩, '(' :: rest) := by
  have hname {words : List String} (hwords : ∀ w ∈ words, '<' ∉ w.toList ∧ '(' ∉ w.toList) :
      ∀ w ∈ words, keyword? w (name ++ (own ++ '(' :: rest)) = none := fun w hw =>
    keyword?_name h (hwords w hw) rest
  have hfunction (head : Text × Text → Header × Text) :
      optionally ["function"] (fun _ t => (headerName? t).map head) (name ++ (own ++ '(' :: rest)) =
        some (head (calleeName name own, '(' :: rest)) := by
    rw [optionally_of_none (hname (by decide)), headerName?_name h]
    rfl
  unfold header?
  cases isAsync with
  | false =>
    show optionally ["export"] _ (name ++ (own ++ '(' :: rest)) = _
    rw [optionally_of_none (hname (by decide)), optionally_of_none (hname (by decide)),
      optionally_of_none (hname (by decide)), hfunction]
  | true =>
    have hasync : asyncText true ++ (name ++ (own ++ '(' :: rest)) =
        "async".toList ++ ' ' :: (name ++ (own ++ '(' :: rest)) := rfl
    have hother {words : List String} (hwords : ∀ w ∈ words, w.toList ≠ [] ∧ w.toList.head? ≠ some 'a') :
        ∀ w ∈ words, keyword? w ("async".toList ++ ' ' :: (name ++ (own ++ '(' :: rest))) = none :=
      fun w hw => keyword?_eq_none (hwords w hw).1 (hwords w hw).2
    have hkeyword : keyword? "async" ("async".toList ++ ' ' :: (name ++ (own ++ '(' :: rest))) =
        some (name ++ (own ++ '(' :: rest)) := by
      refine keyword?_append ?_
      unfold notBefore
      rw [h.head?_not_blank]
      rfl
    rw [hasync, optionally_of_none (hother (by decide)), optionally_of_none (hother (by decide)),
      optionally, List.findSome?_cons, hkeyword, Option.bind_some, hfunction]
    rfl

/-- No header is taken for a constant bound to an arrow. -/
theorem arrowHead?_name (h : IsCallee name own) (isAsync : Bool) (rest : Text) :
    arrowHead? (asyncText isAsync ++ (name ++ (own ++ '(' :: rest))) = none := by
  have hconst : keyword? "const"
      (flag "export" (asyncText isAsync ++ (name ++ (own ++ '(' :: rest)))).2 = none := by
    cases isAsync with
    | true =>
      have hhead : (asyncText true ++ (name ++ (own ++ '(' :: rest))).head? = some 'a' := rfl
      rw [flag_of_head (c := 'e') rfl (by rw [hhead]; decide)]
      exact keyword?_eq_none_of_head (c := 'c') rfl (by rw [hhead]; decide)
    | false =>
      have hexport : keyword? "export" (name ++ (own ++ '(' :: rest)) = none :=
        keyword?_name h (by decide) rest
      unfold keyword? at hexport
      unfold flag flagBy asyncText
      rw [if_neg Bool.false_ne_true, List.nil_append, hexport]
      exact keyword?_name h (by decide) rest
  unfold arrowHead?
  rw [hconst]
  rfl

/-- What is left of a written header behind its name. -/
theorem header?_writtenHeader (h : IsHead name own) :
    header? (writtenHeader isAsync name own inside returns) =
      some (⟨isAsync, name ++ own⟩, '(' :: (inside ++ ')' :: writtenReturns returns)) := by
  rw [← h.calleeName_eq]
  exact header?_name h.isCallee isAsync _

theorem arrowHead?_writtenHeader (h : IsHead name own) :
    arrowHead? (writtenHeader isAsync name own inside returns) = none :=
  arrowHead?_name h.isCallee isAsync _

theorem returnType_writtenReturns (h : ∀ r ∈ returns, IsReturnText r)
    (hat : '@' ∉ writtenReturns returns) : returnType (writtenReturns returns) = returns := by
  cases returns with
  | none => rfl
  | some r =>
    have hr := h r rfl
    have hstart : char? ':' (trimStart (writtenReturns (some r))) = some (' ' :: r) := rfl
    have htake : (' ' :: r).takeWhile (· ≠ '@') = ' ' :: r := by
      have hfree : '@' ∉ ' ' :: r := fun hmem => hat (List.mem_cons_of_mem ':' hmem)
      exact before_eq_self hfree
    have hpad : trim (' ' :: r) = r := (trim_cons_of_blank isBlank_space r).trans hr.trimmed
    have hkeep : dropTrailing (fun c => c == ';' || c == '{') r = r := by
      refine dropTrailing_eq_self fun c hc => ?_
      have hmem := List.mem_of_getLast? hc
      rw [Bool.or_eq_false_iff, beq_eq_false_iff_ne, beq_eq_false_iff_ne]
      exact ⟨fun he => hr.semicolon_not_mem (he ▸ hmem), fun he => hr.open_not_mem (he ▸ hmem)⟩
    unfold returnType
    rw [hstart]
    simp only [Option.bind_eq_bind, Option.bind_some, htake, hpad, hkeep, hr.trimmed,
      nonempty?_of_ne_nil hr.ne_nil]

theorem head?_writtenHeader (h : IsHead name own) (t : Text) :
    (writtenHeader isAsync name own inside returns ++ t).head?.any isBlank = false := by
  cases isAsync with
  | true => rfl
  | false =>
    have hwritten : writtenHeader false name own inside returns =
        name ++ (own ++ '(' :: (inside ++ ')' :: writtenReturns returns)) := rfl
    rw [hwritten, List.append_assoc]
    exact h.isCallee.head?_not_blank _

theorem trim_writtenHeader (h : IsHead name own) (hreturns : ∀ r ∈ returns, IsReturnText r) :
    trim (writtenHeader isAsync name own inside returns) =
      writtenHeader isAsync name own inside returns := by
  have hstart : (writtenHeader isAsync name own inside returns ++ []).head?.any isBlank = false :=
    head?_writtenHeader h []
  rw [List.append_nil] at hstart
  have hend : trimEnd (writtenHeader isAsync name own inside returns) =
      writtenHeader isAsync name own inside returns := by
    have hwritten : writtenHeader isAsync name own inside returns =
        ((if isAsync then "async ".toList else []) ++ (name ++ (own ++ '(' :: inside))) ++
          ')' :: writtenReturns returns := by
      simp only [writtenHeader, writtenName, List.append_assoc, List.cons_append]
    rw [hwritten, trimEnd_append_cons (by decide)]
    cases returns with
    | none => rfl
    | some r =>
      have hr : trimEnd (writtenReturns (some r)) = writtenReturns (some r) :=
        trimEnd_append_of_trim (hreturns r rfl).ne_nil (hreturns r rfl).trimmed _
      rw [hr]
  unfold trim
  rw [trimStart_eq_self hstart, hend]

theorem fragment_callable (isAsync : Bool) (name own inside : Text) (returns owner : Option Text) :
    (Entry.callable isAsync name own ('(' :: inside ++ [')']) returns owner).fragment =
      writtenHeader isAsync name own inside returns ++
        (owner.map fun o => ' ' :: ownerMarker o).getD [] := by
  have hfragment : (Entry.callable isAsync name own ('(' :: inside ++ [')']) returns owner).fragment =
      (if isAsync then "async ".toList else []) ++ name ++ own ++ ('(' :: inside ++ [')']) ++
        writtenReturns returns ++ (owner.map fun o => ' ' :: ownerMarker o).getD [] := rfl
  rw [hfragment]
  simp only [writtenHeader, writtenName, List.append_assoc, List.cons_append, List.nil_append]

/-- The owner is taken out of a written method, and the header is left. -/
theorem splitOwner_fragment (h : IsHead name own) (hreturns : ∀ r ∈ returns, IsReturnText r)
    (howner : ∀ o ∈ owner, isDollarName o = true)
    (hat : '@' ∉ writtenHeader isAsync name own inside returns) :
    ∃ t, splitOwner (writtenHeader isAsync name own inside returns ++
        (owner.map fun o => ' ' :: ownerMarker o).getD []) = (t, owner) ∧
      trim t = writtenHeader isAsync name own inside returns := by
  have htrim : trim (writtenHeader isAsync name own inside returns) = _ := trim_writtenHeader h hreturns
  cases owner with
  | none =>
    refine ⟨_, ?_, htrim⟩
    rw [Option.map_none, Option.getD_none, List.append_nil]
    exact splitOwner_eq_self hat
  | some o =>
    refine ⟨_, splitOwner_ownerMarker hat (howner o rfl), ?_⟩
    rw [trim_concat_of_blank isBlank_space, htrim]

theorem at_not_mem_writtenHeader
    (h : (Entry.callable isAsync name own ('(' :: inside ++ [')']) returns owner).Unmarked) :
    '@' ∉ writtenHeader isAsync name own inside returns := by
  unfold Entry.Unmarked at h
  rw [fragment_callable, List.count_append] at h
  rw [← List.count_eq_zero]
  cases owner with
  | none => exact Nat.le_zero.1 h
  | some o =>
    have hmarker : (' ' :: ownerMarker o).count '@' = 1 + o.count '@' := by
      have hlead : (" @class:".toList).count '@' = 1 := by decide
      rw [show ' ' :: ownerMarker o = " @class:".toList ++ o from rfl, List.count_append, hlead]
    have hone : (writtenHeader isAsync name own inside returns).count '@' +
      (' ' :: ownerMarker o).count '@' ≤ 1 := h
    omega

theorem trim_callable (h : IsHead name own) (hreturns : ∀ r ∈ returns, IsReturnText r)
    (howner : ∀ o ∈ owner, isDollarName o = true) :
    trim (Entry.callable isAsync name own ('(' :: inside ++ [')']) returns owner).fragment =
      (Entry.callable isAsync name own ('(' :: inside ++ [')']) returns owner).fragment := by
  have htrim : trim (writtenHeader isAsync name own inside returns) = _ := trim_writtenHeader h hreturns
  rw [fragment_callable]
  cases owner with
  | none => rwa [Option.map_none, Option.getD_none, List.append_nil]
  | some o =>
    have ho := howner o rfl
    have hend := trimEnd_append_of_trim (all_isDollarWord ho).1 (trim_of_isDollarName ho)
      (writtenHeader isAsync name own inside returns ++ " @class:".toList)
    unfold trim
    rw [Option.map_some, Option.getD_some, trimStart_eq_self (head?_writtenHeader h _)]
    rw [List.append_assoc] at hend
    exact hend

/-- A written function or method is read back as what it says. -/
theorem signature_callable (h : IsHead name own) (hreturns : ∀ r ∈ returns, IsReturnText r)
    (howner : ∀ o ∈ owner, isDollarName o = true) (hclosed : depthAfter '(' ')' 1 inside = some 1)
    (hat : (Entry.callable isAsync name own ('(' :: inside ++ [')']) returns owner).Unmarked) :
    Script.signature (Entry.callable isAsync name own ('(' :: inside ++ [')']) returns owner).fragment =
      .ok (Entry.callable isAsync name own ('(' :: inside ++ [')']) returns owner).signature := by
  have hfree := at_not_mem_writtenHeader hat
  obtain ⟨t, hsplit, htrim⟩ := splitOwner_fragment h hreturns howner hfree
  have hgroup : group? ('(' :: (inside ++ ')' :: writtenReturns returns)) =
      some (inside, writtenReturns returns) := group?_of_grouped (.of_balanced hclosed _)
  have hreturn : returnType (writtenReturns returns) = returns := by
    refine returnType_writtenReturns hreturns fun hmem => hfree ?_
    unfold writtenHeader writtenName
    refine List.mem_append_right _ (List.mem_append_right _ (List.mem_append_right _ ?_))
    exact List.mem_cons_of_mem _ (List.mem_append_right _ (List.mem_cons_of_mem _ hmem))
  unfold Script.signature
  rw [fragment_callable, hsplit]
  simp only [htrim, arrowHead?_writtenHeader h, header?_writtenHeader h, hgroup, hreturn,
    Entry.signature, unwrap_cons_concat]
  rfl

end Header

/-! ## Arrow bindings -/

section Arrow

variable {isExported isAsync : Bool} {name inside : Text} {returns : Option Text}

/-- An arrow function from its parameters on. -/
def writtenArrow (inside : Text) (returns : Option Text) : Text :=
  '(' :: (inside ++ ')' :: (writtenReturns returns ++ " =>".toList))

/-- A constant with what it is bound to. -/
def writtenConstant (isExported isAsync : Bool) (name bound : Text) : Text :=
  (if isExported then "export ".toList else []) ++ ("const".toList ++ ' ' :: (name ++ ' ' ::
    ("= ".toList ++ (asyncText isAsync ++ bound))))

theorem fragment_arrow (isExported isAsync : Bool) (name inside : Text) (returns : Option Text) :
    (Entry.arrow isExported isAsync name ('(' :: inside ++ [')']) returns).fragment =
      writtenConstant isExported isAsync name (writtenArrow inside returns) := by
  have hfragment : (Entry.arrow isExported isAsync name ('(' :: inside ++ [')']) returns).fragment =
      (if isExported then "export ".toList ++ "const ".toList else "const ".toList) ++ name ++
        " = ".toList ++ asyncText isAsync ++ ('(' :: inside ++ [')']) ++
        writtenReturns returns ++ " =>".toList := rfl
  have hconst : "const ".toList = "const".toList ++ [' '] := rfl
  have hequals : " = ".toList = ' ' :: "= ".toList := rfl
  rw [hfragment, hconst, hequals]
  unfold writtenArrow writtenConstant
  cases isExported <;> simp only [Bool.false_eq_true, if_true, if_false, List.append_assoc,
    List.cons_append, List.nil_append]

theorem arrowHead?_writtenConstant (hname : isDollarName name = true) (rest : Text) :
    arrowHead? (writtenConstant isExported isAsync name ('(' :: rest)) =
      some ((name, isAsync), '(' :: rest) := by
  obtain ⟨hne, hall⟩ := all_isDollarWord hname
  have hexport (t : Text) : flag "export" ((if isExported then "export ".toList else []) ++
      ("const".toList ++ t)) = (isExported, "const".toList ++ t) := by
    cases isExported with
    | true => exact flag_append "export" rfl
    | false => exact flag_of_head (c := 'e') rfl (show some 'c' ≠ some 'e' by decide)
  have hconst (t : Text) : keyword? "const" ("const".toList ++ ' ' :: (name ++ t)) = some (name ++ t) := by
    refine keyword?_append ?_
    obtain ⟨c, n, rfl⟩ := List.exists_cons_of_ne_nil hne
    simp [notBefore, solid_of_isDollarName hname c List.mem_cons_self]
  have hrun (t : Text) : run? isDollarWord (name ++ ' ' :: t) = some (name, ' ' :: t) :=
    run?_append hne hall rfl
  have hequals (t : Text) : char? '=' (trimStart (' ' :: ("= ".toList ++ t))) = some (' ' :: t) := rfl
  have hasync : flag "async" (trimStart (' ' :: (asyncText isAsync ++ '(' :: rest))) =
      (isAsync, '(' :: rest) := by
    cases isAsync with
    | true => exact flag_append "async" rfl
    | false => exact flag_of_head (c := 'a') rfl (show some '(' ≠ some 'a' by decide)
  have hopen : ahead? '(' ('(' :: rest) = some ('(' :: rest) := rfl
  unfold arrowHead? writtenConstant
  rw [hexport]
  simp only [Option.bind_eq_bind, Option.bind_some, hconst, hrun, hequals, hasync, hopen]
  rfl

theorem arrowHead?_fragment (hname : isDollarName name = true) :
    arrowHead? (Entry.arrow isExported isAsync name ('(' :: inside ++ [')']) returns).fragment =
      some ((name, isAsync), writtenArrow inside returns) := by
  rw [fragment_arrow]
  exact arrowHead?_writtenConstant hname _

theorem arrowReturn?_writtenReturns (h : ∀ r ∈ returns, r ≠ [] ∧ trim r = r) :
    arrowReturn? (writtenReturns returns ++ " =>".toList) = some returns := by
  cases returns with
  | none => rfl
  | some r =>
    obtain ⟨hne, htrim⟩ := h r rfl
    have hcolon : char? ':' (trimStart (writtenReturns (some r) ++ " =>".toList)) =
        some (' ' :: r ++ [' '] ++ "=>".toList) := by
      rw [List.append_assoc]
      rfl
    have hend : trimEnd (' ' :: r ++ [' '] ++ "=>".toList) = ' ' :: r ++ [' '] ++ "=>".toList :=
      trimEnd_append_of_trim (by decide) (by decide) _
    have hafter : after? ">=".toList (' ' :: r ++ [' '] ++ "=>".toList).reverse =
        some (' ' :: r ++ [' ']).reverse := by
      rw [List.reverse_append]
      exact after?_append ">=".toList _
    have hnonempty : (' ' :: r ++ [' ']).reverse.isEmpty = false := by simp
    have hpad : trim (' ' :: r ++ [' ']) = r := (trim_pad (g := [' ']) (k := [' ']) rfl rfl r).trans htrim
    unfold arrowReturn?
    rw [hcolon]
    simp only [hend, hafter, Option.bind_eq_bind, Option.bind_some, hnonempty, List.reverse_reverse, hpad,
      nonempty?_of_ne_nil hne]
    rfl

theorem trim_arrow :
    trim (Entry.arrow isExported isAsync name ('(' :: inside ++ [')']) returns).fragment =
      (Entry.arrow isExported isAsync name ('(' :: inside ++ [')']) returns).fragment := by
  rw [trim_eq_self_iff]
  constructor
  · rw [fragment_arrow]
    cases isExported <;> rfl
  · unfold Entry.fragment
    rw [List.getLast?_append]
    rfl

/-- A fragment that is an arrow binding once its owner is taken out is read as that binding. -/
theorem signature_of_splitOwner {fragment : Text} {owner : Option Text}
    (hname : isDollarName name = true) (hreturns : ∀ r ∈ returns, r ≠ [] ∧ trim r = r)
    (hclosed : depthAfter '(' ')' 1 inside = some 1)
    (hsplit : splitOwner fragment =
      ((Entry.arrow isExported isAsync name ('(' :: inside ++ [')']) returns).fragment, owner)) :
    Script.signature fragment =
      .ok { (Entry.arrow isExported isAsync name ('(' :: inside ++ [')']) returns).signature with
        className := owner } := by
  have hparens : parens (writtenArrow inside returns) =
      ('(' :: inside ++ [')'], writtenReturns returns ++ " =>".toList) :=
    balanced_of_depthAfter hclosed (by decide) _
  unfold Script.signature
  rw [hsplit]
  simp only [trim_arrow, arrowHead?_fragment hname, hparens, arrowReturn?_writtenReturns hreturns]
  rfl

/-- A written arrow binding is read back as what it says. -/
theorem signature_arrow (hname : isDollarName name = true) (hreturns : ∀ r ∈ returns, r ≠ [] ∧ trim r = r)
    (hclosed : depthAfter '(' ')' 1 inside = some 1)
    (hat : (Entry.arrow isExported isAsync name ('(' :: inside ++ [')']) returns).Unmarked) :
    Script.signature (Entry.arrow isExported isAsync name ('(' :: inside ++ [')']) returns).fragment =
      .ok (Entry.arrow isExported isAsync name ('(' :: inside ++ [')']) returns).signature := by
  have hfree : '@' ∉ (Entry.arrow isExported isAsync name ('(' :: inside ++ [')']) returns).fragment :=
    List.count_eq_zero.1 (Nat.le_zero.1 hat)
  exact signature_of_splitOwner hname hreturns hclosed (splitOwner_eq_self hfree)

end Arrow

/-! ## Sources -/

/-- A well-formed entry with a closed list and no at sign of its own is read back as what it says. -/
theorem signature_fragment {e : Entry} (hw : e.WellFormed) (hclosed : Closed e.list)
    (hat : e.Unmarked) : Script.signature e.fragment = .ok e.signature := by
  cases hw with
  | callable hhead hreturns howner =>
    obtain ⟨inside, rfl, hinside⟩ := hclosed
    exact signature_callable hhead hreturns howner hinside hat
  | arrow hname hreturns =>
    obtain ⟨inside, rfl, hinside⟩ := hclosed
    exact signature_arrow hname hreturns hinside hat

theorem trim_fragment {e : Entry} (hw : e.WellFormed) (hclosed : Closed e.list) :
    trim e.fragment = e.fragment := by
  cases hw with
  | callable hhead hreturns howner =>
    obtain ⟨inside, rfl, -⟩ := hclosed
    exact trim_callable hhead hreturns howner
  | arrow hname hreturns =>
    obtain ⟨inside, rfl, -⟩ := hclosed
    exact trim_arrow

theorem fragment_ne_nil {e : Entry} (hclosed : Closed e.list) : e.fragment ≠ [] := by
  cases e with
  | callable isAsync name own params returns owner =>
    obtain ⟨inside, rfl, -⟩ := hclosed
    rw [fragment_callable]
    refine List.append_ne_nil_of_left_ne_nil (List.append_ne_nil_of_right_ne_nil _ ?_) _
    exact List.append_ne_nil_of_right_ne_nil _
      (List.append_ne_nil_of_right_ne_nil _ (List.cons_ne_nil _ _))
  | arrow isExported isAsync name params returns =>
    obtain ⟨inside, rfl, -⟩ := hclosed
    rw [fragment_arrow]
    cases isExported <;> exact List.cons_ne_nil _ _

theorem mem_fragments_iff {source f : Text} : f ∈ fragments source ↔
    f ≠ [] ∧ ∃ e ∈ entries (CommentStyle.slashes.strip source), f = trim e.fragment := by
  unfold fragments
  rw [mem_distinct]
  constructor
  · rintro ⟨hne, g, hg, rfl⟩
    obtain ⟨e, he, rfl⟩ := List.mem_map.1 hg
    exact ⟨hne, e, he, rfl⟩
  · rintro ⟨hne, e, he, rfl⟩
    exact ⟨hne, e.fragment, List.mem_map_of_mem he, rfl⟩

/-- What the fragment of a located entry is read as is a signature of the source. -/
theorem mem_extract_of_entry {source : Text} (hsource : blank source = false) {e : Entry}
    (he : e ∈ entries (CommentStyle.slashes.strip source)) (hclosed : Closed e.list) {s : Signature}
    (hread : Script.signature e.fragment = .ok s) : s ∈ Language.typescript.extract source := by
  refine Language.mem_extract.2 ⟨hsource, e.fragment, ?_, hread⟩
  refine mem_fragments_iff.2 ⟨fragment_ne_nil hclosed, e, he, ?_⟩
  exact (trim_fragment (wellFormed_of_mem_entries he) hclosed).symm

theorem owner?_of_mem_bindings {t : Text} {e : Entry} (h : e ∈ bindings t) : e.owner? = none := by
  rcases bindings_cases h with ⟨s, -, rfl⟩ | ⟨s, -, he⟩ | ⟨s, -, he⟩ | ⟨s, -, rfl⟩
  · rfl
  · obtain ⟨returns, -, rfl⟩ := arrowEntry?_eq_some_iff.1 he
    rfl
  · obtain ⟨t, -, -, rfl⟩ := componentEntry?_eq_some_iff.1 he
    rfl
  · rfl

theorem owner?_of_mem_methods {owner body : Text} {e : Entry} (h : e ∈ methods owner body) :
    e.owner? = some owner := by
  obtain ⟨s, -, rfl⟩ := exists_of_mem_methods h
  unfold methodEntry
  dsimp only
  split <;> rfl

/-- Every located entry with a closed list and no at sign of its own is written and read back with the
    parts it was located with, and nothing is written but located entries. Methods belong to their
    class, and functions and bindings to none. -/
theorem signature_of_entry (source : Text) :
    (∀ e ∈ entries (CommentStyle.slashes.strip source), Closed e.list → e.Unmarked →
      e.fragment ∈ Language.typescript.fragments source ∧
        Language.typescript.signature e.fragment = .ok e.signature) ∧
    (∀ f ∈ Language.typescript.fragments source,
      ∃ e ∈ entries (CommentStyle.slashes.strip source), f = trim e.fragment) ∧
    (∀ e ∈ bindings (CommentStyle.slashes.strip source), e.owner? = none) ∧
    ∀ c ∈ sites classAt? (CommentStyle.slashes.strip source), ∀ e ∈ methods c.found.1 c.found.2,
      e.owner? = some c.found.1 := by
  refine ⟨fun e he hclosed hat => ?_, fun f hf => ?_, fun e he => ?_, fun c _ e he => ?_⟩
  · have hw := wellFormed_of_mem_entries he
    refine ⟨mem_fragments_iff.2 ⟨fragment_ne_nil hclosed, e, he, ?_⟩, signature_fragment hw hclosed hat⟩
    exact (trim_fragment hw hclosed).symm
  · exact (mem_fragments_iff.1 hf).2
  · exact owner?_of_mem_bindings he
  · exact owner?_of_mem_methods he

/-- A function and an arrow function with the names of modifiers, a component, a member of another object
    and a private method. -/
def moduleSource : Text :=
  ("async function async<T>(a: T): P \x7b\x7d\n" ++
    "export const get = async (x: (y: A) => B): C => x\n" ++
    "const V = forwardRef((p): E => p)\nconst R = S.T\n" ++
    "class K \x7b\n@d static async #m<U>(u: U): U[] \x7b\x7d\n\x7d").toList

/-- The function of `moduleSource`. -/
def asyncFunction : Entry :=
  .callable true "async".toList "<T>".toList "(a: T)".toList (some "P".toList) none

/-- The arrow function of `moduleSource`. -/
def getBinding : Entry :=
  .arrow true true "get".toList "(x: (y: A) => B)".toList (some "C".toList)

/-- The component of `moduleSource`. -/
def component : Entry := .arrow false false "V".toList "(p)".toList (some "E".toList)

/-- The member of another object that `moduleSource` renames. -/
def memberAlias : Entry := .arrow false false "R".toList "()".toList none

/-- The method of `moduleSource`. -/
def privateMethod : Entry :=
  .callable true "#m".toList "<U>".toList "(u: U)".toList (some "U[]".toList) (some "K".toList)

theorem signature_of_entry_moduleSource :
    [asyncFunction, getBinding, component, memberAlias, privateMethod].map Entry.fragment =
        ["async async<T>(a: T): P".toList, "export const get = async (x: (y: A) => B): C =>".toList,
          "const V = (p): E =>".toList, "const R = () =>".toList,
          "async #m<U>(u: U): U[] @class:K".toList] ∧
      Language.typescript.signature asyncFunction.fragment = .ok asyncFunction.signature ∧
      Language.typescript.signature getBinding.fragment = .ok getBinding.signature ∧
      Language.typescript.signature component.fragment = .ok component.signature ∧
      Language.typescript.signature memberAlias.fragment = .ok memberAlias.signature ∧
      Language.typescript.signature privateMethod.fragment = .ok privateMethod.signature := by
  have hmodule : entries (CommentStyle.slashes.strip moduleSource) =
    [asyncFunction, getBinding, component, memberAlias, privateMethod] := by decide +kernel
  have hread (e : Entry) (he : e ∈ [asyncFunction, getBinding, component, memberAlias, privateMethod])
      (hclosed : Closed e.list) (hat : e.Unmarked) :=
    ((signature_of_entry moduleSource).1 e (hmodule ▸ he) hclosed hat).2
  refine ⟨?_, hread _ ?_ ?_ ?_, hread _ ?_ ?_ ?_, hread _ ?_ ?_ ?_, hread _ ?_ ?_ ?_, hread _ ?_ ?_ ?_⟩
  all_goals decide +kernel

end Synopsis.Script
