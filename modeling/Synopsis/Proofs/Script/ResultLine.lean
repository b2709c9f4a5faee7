import Synopsis.Proofs.Nesting.Depth
import Synopsis.Proofs.Script.Agreement

/-!
# TypeScript and JavaScript: return types stand on one line

A parameter list is written with its line ends, but what is written behind it has none: annotations are
read up to the end of their line. The owner marker may be taken out of any part of a fragment, also out
of a list that happens to hold one, but no parenthesis is taken with it, and so the list that is read is
still one behind which no line ends (`exists_list`). There the return type is read
(`newline_not_mem_returnType`).
-/

namespace Synopsis.Script

open Text

/-! ## What stands behind a list -/

/-- A text from behind the opening parenthesis of a list: no line ends behind the list, or the list is
    never closed. -/
def EndsOnLine (t : Text) : Prop := '\n' ∉ (parens ('(' :: t)).2

/-- A list is closed, or it takes all that is left. -/
theorem parens_cases (t : Text) :
    (∃ s r, t = s ++ ')' :: r ∧ depthAfter '(' ')' 1 s = some 1 ∧
      parens ('(' :: t) = ('(' :: s ++ [')'], r)) ∨
    ∃ d, depthAfter '(' ')' 1 t = some d ∧ parens ('(' :: t) = ('(' :: t, []) := by
  cases ht : depthAfter '(' ')' 1 t with
  | none =>
    obtain ⟨s, r, rfl, hs⟩ := exists_close ht
    exact .inl ⟨s, r, rfl, hs, balanced_of_depthAfter hs (by decide) r⟩
  | some d => exact .inr ⟨d, rfl, balanced_of_open ht⟩

theorem endsOnLine_of_closed {s r : Text} (hs : depthAfter '(' ')' 1 s = some 1) (hr : '\n' ∉ r) :
    EndsOnLine (s ++ ')' :: r) := by
  have hparens : parens ('(' :: (s ++ ')' :: r)) = ('(' :: s ++ [')'], r) :=
    balanced_of_depthAfter hs (by decide) r
  unfold EndsOnLine
  rwa [hparens]

theorem endsOnLine_of_open {t : Text} {d : Nat} (ht : depthAfter '(' ')' 1 t = some d) :
    EndsOnLine t := by
  have hparens : parens ('(' :: t) = ('(' :: t, []) := balanced_of_open ht
  unfold EndsOnLine
  rw [hparens]
  exact List.not_mem_nil

theorem EndsOnLine.trimEnd {t : Text} (h : EndsOnLine t) : EndsOnLine (trimEnd t) := by
  rcases parens_cases t with ⟨s, r, rfl, hs, hparens⟩ | ⟨d, hd, -⟩
  · unfold EndsOnLine at h
    rw [hparens] at h
    rw [trimEnd_append_cons (by decide)]
    obtain ⟨g, -, hr, -⟩ := exists_trimEnd r
    exact endsOnLine_of_closed hs fun hmem => h (hr ▸ List.mem_append_left g hmem)
  · obtain ⟨g, -, ht, -⟩ := exists_trimEnd t
    rw [ht, depthAfter_append] at hd
    obtain ⟨e, he, -⟩ := Option.bind_eq_some_iff.1 hd
    exact endsOnLine_of_open he

theorem mem_of_mem_splitOwner {t : Text} {c : Char} (h : c ∈ (splitOwner t).1) : c ∈ t := by
  induction t with
  | nil => exact h
  | cons x t ih =>
    rw [splitOwner_cons] at h
    cases hread : ownerAt? ⟨none, 0, x :: t⟩ with
    | none =>
      rw [hread] at h
      rcases List.mem_cons.1 h with rfl | h
      · exact List.mem_cons_self
      · exact List.mem_cons_of_mem x (ih h)
    | some hit =>
      rw [hread] at h
      obtain ⟨ht, -⟩ := ownerAt?_eq_some hread
      rw [show x :: t = _ from ht]
      exact List.mem_append_right _ (List.mem_append_right _ h)

theorem EndsOnLine.splitOwner {t : Text} (h : EndsOnLine t) : EndsOnLine (splitOwner t).1 := by
  rcases parens_cases t with ⟨s, r, rfl, hs, hparens⟩ | ⟨d, hd, -⟩
  · unfold EndsOnLine at h
    rw [hparens] at h
    rw [splitOwner_append_cons_eq (by decide) (by decide +kernel)]
    split
    · exact endsOnLine_of_closed (by rw [depthAfter_splitOwner, hs]) h
    · exact endsOnLine_of_closed hs fun hmem => h (mem_of_mem_splitOwner hmem)
  · exact endsOnLine_of_open ((depthAfter_splitOwner 1 t).trans hd)

/-! ## What is written behind a list -/

/-- The return type that an entry is written with. -/
def Entry.returns : Entry → Option Text
  | .callable _ _ _ _ returns _ => returns
  | .arrow _ _ _ _ returns => returns

/-- A list that is closed in front of a return type on one line, or that is never closed and has no
    return type. -/
def Entry.OnLine (e : Entry) : Prop :=
  (Closed e.list ∧ ∀ r ∈ e.returns, '\n' ∉ r) ∨
    ∃ t d, e.list = '(' :: t ∧ depthAfter '(' ')' 1 t = some d ∧ e.returns = none

theorem newline_not_mem_returnText (t : Text) : '\n' ∉ returnText t := by
  unfold returnText
  split
  · exact not_mem_trim_takeWhile rfl _
  · exact List.not_mem_nil

theorem newline_not_mem_of_arrowType? {stops : Char → Bool} (hstops : stops '\n' = true) {t r : Text}
    (h : arrowType? stops t = some r) : '\n' ∉ r := by
  obtain ⟨u, rfl⟩ := exists_of_arrowType? h
  exact not_mem_trim_takeWhile (by rw [hstops]; rfl) _

theorem newline_not_mem_of_arrowTail? {t r : Text} (h : arrowTail? t = some r) : '\n' ∉ r := by
  unfold arrowTail? at h
  rcases Option.or_eq_some_iff.1 h with h | ⟨-, h⟩
  · exact newline_not_mem_of_arrowType? rfl h
  · obtain ⟨u, -, rfl⟩ := Option.map_eq_some_iff.1 h
    exact List.not_mem_nil

theorem newline_not_mem_componentTail (t : Text) : '\n' ∉ componentTail t := by
  unfold componentTail
  cases h : arrowType? (fun c => c == '=' || c == ')' || c == '\n') t with
  | none => exact List.not_mem_nil
  | some r => exact newline_not_mem_of_arrowType? rfl h

/-- An entry is on one line when its list and its return type are read from a text that opens a list. -/
theorem Entry.onLine_of_parens {e : Entry} {t : Text} (hlist : e.list = (parens ('(' :: t)).1)
    (hreturns : ∀ r ∈ e.returns, '\n' ∉ r) (hnone : (parens ('(' :: t)).2 = [] → e.returns = none) :
    e.OnLine := by
  rcases parens_cases t with ⟨s, r, rfl, hs, hparens⟩ | ⟨d, hd, hparens⟩
  · exact .inl ⟨⟨s, by rw [hlist, hparens], hs⟩, hreturns⟩
  · exact .inr ⟨t, d, by rw [hlist, hparens], hd, hnone (by rw [hparens])⟩

theorem onLine_functionEntry (s : Site Head) : (functionEntry s).OnLine :=
  Entry.onLine_of_parens (t := s.rest) rfl
    (fun _ hr => newline_not_mem_of_nonempty? (newline_not_mem_returnText _) hr)
    (fun hrest => by
      show nonempty? (returnText (parens ('(' :: s.rest)).2) = none
      rw [hrest]
      rfl)

theorem onLine_of_arrowEntry? {s : Site Head} {e : Entry} (h : arrowEntry? s = some e) : e.OnLine := by
  obtain ⟨returns, hreturns, rfl⟩ := arrowEntry?_eq_some_iff.1 h
  refine Entry.onLine_of_parens (t := s.rest) rfl
    (fun _ hr => newline_not_mem_of_nonempty? (newline_not_mem_of_arrowTail? hreturns) hr) fun hrest => ?_
  rw [hrest] at hreturns
  cases hreturns

theorem onLine_of_componentEntry? {s : Site Head} {e : Entry} (h : componentEntry? s = some e) :
    e.OnLine := by
  obtain ⟨t, ht, hne, rfl⟩ := componentEntry?_eq_some_iff.1 h
  have hopen := List.head?_dropWhile_not (· ≠ '(')
    (unwrap (parens (trimStart (balanced '<' '>' s.rest).2)).1)
  rw [← ht] at hopen
  -- the list is not empty, so there is a parenthesis to open it
  cases t with
  | nil => exact absurd rfl hne
  | cons c t =>
    obtain rfl : c = '(' := by simpa using hopen
    refine Entry.onLine_of_parens (t := t) rfl
      (fun _ hr => newline_not_mem_of_nonempty? (newline_not_mem_componentTail _) hr) fun hrest => ?_
    show nonempty? (componentTail (parens ('(' :: t)).2) = none
    rw [hrest]
    rfl

theorem onLine_methodEntry (owner : Text) (s : Site Head) : (methodEntry owner s).OnLine := by
  unfold methodEntry
  dsimp only
  split
  · exact Entry.onLine_of_parens (t := s.rest) rfl (fun _ hr => nomatch hr) fun _ => rfl
  · refine Entry.onLine_of_parens (t := s.rest) rfl
      (fun _ hr => newline_not_mem_of_nonempty? (newline_not_mem_returnText _) hr) fun hrest => ?_
    show nonempty? (returnText (parens ('(' :: s.rest)).2) = none
    rw [hrest]
    rfl

theorem onLine_of_mem_entries {t : Text} {e : Entry} (h : e ∈ entries t) : e.OnLine := by
  rcases List.mem_append.1 h with h | h
  · rcases bindings_cases h with ⟨s, -, rfl⟩ | ⟨s, -, he⟩ | ⟨s, -, he⟩ | ⟨s, -, rfl⟩
    · exact onLine_functionEntry s
    · exact onLine_of_arrowEntry? he
    · exact onLine_of_componentEntry? he
    · exact .inl ⟨⟨[], rfl, rfl⟩, fun _ hr => nomatch hr⟩
  · obtain ⟨c, -, he⟩ := exists_of_mem_classMethods h
    obtain ⟨s, -, rfl⟩ := exists_of_mem_methods he
    exact onLine_methodEntry _ s

/-! ## Written entries -/

/-- What is written behind the list of an entry. -/
def Entry.tail : Entry → Text
  | .callable _ _ _ _ returns owner =>
    writtenReturns returns ++ (owner.map fun o => ' ' :: ownerMarker o).getD []
  | .arrow _ _ _ _ returns => writtenReturns returns ++ " =>".toList

theorem newline_not_mem_tail {e : Entry} (hw : e.WellFormed) (h : ∀ r ∈ e.returns, '\n' ∉ r) :
    '\n' ∉ e.tail := by
  have hreturns : '\n' ∉ writtenReturns e.returns := by
    cases hr : e.returns with
    | none => exact List.not_mem_nil
    | some r => exact List.not_mem_append (by decide) (h r hr)
  cases hw with
  | @callable isAsync name own params returns owner hhead hreturn howner =>
    refine List.not_mem_append hreturns ?_
    cases owner with
    | none => exact List.not_mem_nil
    | some o =>
      have ho : '\n' ∉ o := not_mem_of_isDollarName (howner o rfl) (by decide +kernel)
      have hlead : '\n' ∉ " @class:".toList := by decide
      exact List.not_mem_append hlead ho
  | arrow => exact List.not_mem_append hreturns (by decide)

/-- Behind an open list nothing is written that could close it. -/
theorem depthAfter_tail {e : Entry} (hw : e.WellFormed) (h : e.returns = none) (d : Nat) :
    depthAfter '(' ')' d e.tail = some d := by
  cases hw with
  | @callable isAsync name own params returns owner hhead hreturn howner =>
    obtain rfl : returns = none := h
    cases owner with
    | none => rfl
    | some o =>
      have hnot {x : Char} (hx : isDollarWord x = false) (hlead : x ∉ " @class:".toList) :
          x ∉ " @class:".toList ++ o :=
        List.not_mem_append hlead (not_mem_of_isDollarName (howner o rfl) hx)
      exact depthAfter_of_not_mem (hnot (by decide +kernel) (by decide))
        (hnot (by decide +kernel) (by decide)) d
  | arrow =>
    obtain rfl := h
    rfl

/-- An entry is written from its list on with no line end behind the list. -/
theorem exists_endsOnLine {e : Entry} (hw : e.WellFormed) (h : e.OnLine) :
    ∃ t, e.list ++ e.tail = '(' :: t ∧ EndsOnLine t := by
  rcases h with ⟨⟨s, hlist, hs⟩, hreturns⟩ | ⟨t, d, hlist, hd, hreturns⟩
  · refine ⟨s ++ ')' :: e.tail, ?_, endsOnLine_of_closed hs (newline_not_mem_tail hw hreturns)⟩
    rw [hlist, List.append_assoc]
    rfl
  · refine ⟨t ++ e.tail, by rw [hlist, List.cons_append], endsOnLine_of_open (d := d) ?_⟩
    rw [depthAfter_append, hd, Option.bind_some, depthAfter_tail hw hreturns]

/-! ## Reading a written entry -/

/-- What stands in front of a list, and lets the reader find the list behind it. -/
structure IsFront (front : Text) : Prop where
  head : front.head?.any isBlank = false
  finds : ∀ f rest, trim (splitOwner f).1 = front ++ '(' :: rest → list? f = some ('(' :: rest)

theorem isFront_callee {name own : Text} (h : IsCallee name own) (isAsync : Bool) :
    IsFront (asyncText isAsync ++ (name ++ own)) where
  head := by
    cases isAsync with
    | true => rfl
    | false => exact h.head?_not_blank own
  finds f rest hf := by
    rw [List.append_assoc, List.append_assoc] at hf
    unfold list? arrowList?
    rw [hf, arrowHead?_name h, header?_name h]
    rfl

theorem writtenConstant_eq (isExported isAsync : Bool) (name bound : Text) :
    writtenConstant isExported isAsync name bound =
      writtenConstant isExported isAsync name [] ++ bound := by
  simp only [writtenConstant, List.append_assoc, List.cons_append, List.append_nil]

theorem isFront_constant {name : Text} (h : isDollarName name = true) (isExported isAsync : Bool) :
    IsFront (writtenConstant isExported isAsync name []) where
  head := by cases isExported <;> rfl
  finds f rest hf := by
    rw [← writtenConstant_eq] at hf
    unfold list? arrowList?
    rw [hf, arrowHead?_writtenConstant h]
    rfl

theorem at_not_mem_constant {name : Text} (h : isDollarName name = true) (isExported isAsync : Bool) :
    '@' ∉ writtenConstant isExported isAsync name [] := by
  have hname : '@' ∉ name := not_mem_of_isDollarName h (by decide +kernel)
  have hasync : '@' ∉ ' ' :: ("= ".toList ++ (asyncText isAsync ++ [])) := by cases isAsync <;> decide
  have hlead : '@' ∉ (if isExported then "export ".toList else []) ++ ("const".toList ++ [' ']) := by
    cases isExported <;> decide
  have hconstant : writtenConstant isExported isAsync name [] =
      ((if isExported then "export ".toList else []) ++ ("const".toList ++ [' '])) ++
        (name ++ ' ' :: ("= ".toList ++ (asyncText isAsync ++ []))) := by
    simp only [writtenConstant, List.append_assoc, List.cons_append, List.nil_append]
  rw [hconstant]
  exact List.not_mem_append hlead (List.not_mem_append hname hasync)

/-- A marker that is taken out of type parameters leaves the brackets around them. -/
theorem IsHead.splitOwner {name own : Text} (h : IsHead name own) :
    IsCallee name (splitOwner own).1 where
  ne_nil := h.ne_nil
  chars := h.chars
  brackets := by
    rcases h.generics with rfl | ⟨g, -, hg, rfl⟩
    · exact .inl rfl
    · have hopen := splitOwner_append_of_not_mem (s := ['<']) (by decide) (g ++ ['>'])
      have hclose := splitOwner_append_cons (c := '>') (by decide) (by decide +kernel) g (t := []) (by simp)
      refine .inr ⟨(Script.splitOwner g).1, fun hmem => hg (mem_of_mem_splitOwner hmem), ?_⟩
      rw [List.cons_append, show '<' :: (g ++ ['>']) = ['<'] ++ (g ++ ['>']) from rfl, hopen, hclose]
      rfl

theorem at_not_mem_callee {name own : Text} (h : IsHead name own) (isAsync : Bool) :
    '@' ∉ asyncText isAsync ++ name := by
  have hname : '@' ∉ name := not_mem_of_all h.chars (by decide +kernel)
  refine List.not_mem_append ?_ hname
  cases isAsync <;> decide

/-- The list of a trimmed text is found behind its front, from which a marker may have been taken. -/
theorem exists_list_of_front {front t : Text} (hfront : IsFront front)
    (hsplit : IsFront (splitOwner front).1) (ht : EndsOnLine t) :
    ∃ u, list? (trim (front ++ '(' :: t)) = some ('(' :: u) ∧ EndsOnLine u := by
  have htrim {s : Text} (hs : IsFront s) (u : Text) : trim (s ++ '(' :: u) = s ++ '(' :: trimEnd u := by
    rw [trim_append_cons (by decide), trimStart_eq_self hs.head]
  have howner := splitOwner_append_cons_eq (c := '(') (by decide) (by decide +kernel) front (trimEnd t)
  rw [htrim hfront]
  by_cases hmarker : (splitOwner front).2.isSome = true
  · rw [if_pos hmarker] at howner
    refine ⟨trimEnd (trimEnd t), hsplit.finds _ _ ?_, ht.trimEnd.trimEnd⟩
    rw [howner, htrim hsplit]
  · rw [if_neg hmarker] at howner
    refine ⟨trimEnd (splitOwner (trimEnd t)).1, hfront.finds _ _ ?_, ht.trimEnd.splitOwner.trimEnd⟩
    rw [howner, htrim hfront]

/-- Every fragment has a list, and no line ends behind it. -/
theorem exists_list {source f : Text} (hf : f ∈ fragments source) :
    ∃ t, list? f = some ('(' :: t) ∧ EndsOnLine t := by
  obtain ⟨-, e, he, rfl⟩ := mem_fragments_iff.1 hf
  have hw := wellFormed_of_mem_entries he
  obtain ⟨t, hwritten, ht⟩ := exists_endsOnLine hw (onLine_of_mem_entries he)
  cases hw with
  | @callable isAsync name own params returns owner hhead hreturns howner =>
    have hfragment : (Entry.callable isAsync name own params returns owner).fragment =
        asyncText isAsync ++ (name ++ own) ++ '(' :: t := by
      show asyncText isAsync ++ name ++ own ++ params ++ writtenReturns returns ++
        (owner.map fun o => ' ' :: ownerMarker o).getD [] = _
      rw [← hwritten]
      simp only [Entry.list, Entry.tail, List.append_assoc]
    rw [hfragment]
    refine exists_list_of_front (isFront_callee hhead.isCallee isAsync) ?_ ht
    rw [← List.append_assoc, splitOwner_append_of_not_mem (at_not_mem_callee hhead isAsync),
      List.append_assoc]
    exact isFront_callee hhead.splitOwner isAsync
  | @arrow isExported isAsync name params returns hname hreturns =>
    have hfragment : (Entry.arrow isExported isAsync name params returns).fragment =
        writtenConstant isExported isAsync name [] ++ '(' :: t := by
      have hconst : "const ".toList = "const".toList ++ [' '] := rfl
      have hequals : " = ".toList = ' ' :: "= ".toList := rfl
      have hlead : (if isExported then "export const ".toList else "const ".toList) =
          (if isExported then "export ".toList else []) ++ "const ".toList := by cases isExported <;> rfl
      show (if isExported then "export const ".toList else "const ".toList) ++ name ++ " = ".toList ++
        asyncText isAsync ++ params ++ writtenReturns returns ++ " =>".toList = _
      rw [← hwritten, ← writtenConstant_eq, hlead, hconst, hequals]
      simp only [Entry.list, Entry.tail, writtenConstant, List.append_assoc, List.cons_append,
        List.nil_append]
    rw [hfragment]
    have hfront := isFront_constant hname isExported isAsync
    refine exists_list_of_front hfront ?_ ht
    rw [splitOwner_eq_self (at_not_mem_constant hname isExported isAsync)]
    exact hfront

/-! ## What is read behind a list -/

theorem mem_of_mem_returnType {t r : Text} (h : returnType t = some r) {c : Char} (hc : c ∈ r) :
    c ∈ t := by
  unfold returnType at h
  obtain ⟨u, hu, h⟩ := Option.bind_eq_some_iff.1 h
  obtain ⟨-, rfl⟩ := nonempty?_eq_some.1 h
  have hkept := mem_of_mem_trim hc
  have htype := mem_of_mem_trim ((prefix_dropTrailing _ _).subset hkept)
  have hbehind := (List.takeWhile_prefix _).subset htype
  exact (suffix_trimStart t).subset ((suffix_of_after? hu).subset hbehind)

theorem mem_of_mem_arrowReturn? {t r : Text} (h : arrowReturn? t = some (some r)) {c : Char}
    (hc : c ∈ r) : c ∈ t := by
  unfold arrowReturn? at h
  split at h
  · split at h <;> cases h
  · next u hu =>
    obtain ⟨type, htype, h⟩ := Option.bind_eq_some_iff.1 h
    split at h
    · cases h
    · obtain ⟨-, rfl⟩ := nonempty?_eq_some.1 (Option.some.inj h)
      have hkept := List.mem_reverse.1 (mem_of_mem_trim hc)
      have hend := List.mem_reverse.1 ((suffix_of_after? htype).subset hkept)
      exact (suffix_trimStart t).subset ((suffix_of_after? hu).subset ((prefix_dropTrailing _ _).subset hend))

/-- A return type is read from what stands behind the list. -/
theorem mem_of_signature {f r : Text} {s : Signature} (h : signature f = .ok s)
    (hr : s.returnType = some r) : ∃ t, list? f = some t ∧ ∀ c ∈ r, c ∈ (parens t).2 := by
  rcases cases_of_signature h with
    ⟨name, isAsync, t, returns, ht, hreturn, rfl⟩ | ⟨header, t, params, rest, harrow, ht, hgroup, rfl⟩
  · obtain rfl : returns = some r := hr
    refine ⟨t, ?_, fun c hc => mem_of_mem_arrowReturn? hreturn hc⟩
    unfold list? arrowList?
    rw [ht]
    rfl
  · have hrest : (parens t).2 = rest := snd_parens_of_group? hgroup
    refine ⟨t, ?_, fun c hc => hrest ▸ mem_of_mem_returnType hr hc⟩
    unfold list? arrowList?
    rw [harrow, ht]
    rfl

/-- The return type of a declaration stands on one line. -/
theorem newline_not_mem_returnType {source f r : Text} {s : Signature} (hf : f ∈ fragments source)
    (hs : signature f = .ok s) (hr : s.returnType = some r) : '\n' ∉ r := by
  obtain ⟨t, ht, hmem⟩ := mem_of_signature hs hr
  obtain ⟨u, hu, hline⟩ := exists_list hf
  obtain rfl : t = '(' :: u := Option.some.inj (ht.symm.trans hu)
  exact fun hnewline => hline (hmem _ hnewline)

end Synopsis.Script
