import Synopsis.Language
import Synopsis.Proofs.Nesting.Span
import Synopsis.Proofs.Scan.Site

/-!
# Python: what is located is what is read back

A `def` is located by its line and read again from the written header. Three things are needed for
both readings to agree, and every located header has them (`Header.WellFormed`): the name is a word,
the parameter list is closed where it is written, and the return text ends where the header does.
-/

namespace Synopsis.Python

open Text

/-- A `def` in a text without comments: whether it is asynchronous, its name, and the text that goes on
    after it. -/
inductive Candidate (t : Text) : Bool × Text → Text → Prop
  | function {s : Site (Bool × Text)} : s ∈ sites functionAt? t → Candidate t s.found s.rest
  | method {c : Site Text} {s : Site (Bool × Text)} : c ∈ sites classAt? t →
      s ∈ sites methodAt? (classBody (classEntry c.found c.rest).2) → Candidate t s.found s.rest

/-- `Located t f s`: a `def` with a closed parameter list stands in `t`, `f` is what is written of it
    and `s` is what it says. -/
inductive Located (t : Text) : Text → Signature → Prop
  | intro {head : Bool × Text} {rest params tail : Text} : Candidate t head rest →
      group? rest = some (params, tail) →
      Located t (trim (Header.fragment ⟨head.1, head.2, collapse params, returnText? tail⟩))
        { name := head.2
          parameters := parameters (collapse params)
          returnType := present? (returnText? tail)
          isAsync := head.1
          isMethod := (parameters (collapse params)).head?.any (·.name == "self".toList) }

/-- The classes of a text without comments. -/
def classes (t : Text) : List ClassEntry :=
  (sites classAt? t).map fun s => (classEntry s.found s.rest).1

/-- The functions of a text without comments and the methods of its classes. -/
def headers (t : Text) : List Header :=
  functions t ++ (sites classAt? t).flatMap fun s =>
    methods (classBody (classEntry s.found s.rest).2)

/-- What a located header says. -/
def Header.signature (h : Header) : Signature where
  name := h.name
  parameters := Python.parameters h.parameters
  returnType := present? h.returns
  isAsync := h.isAsync
  isMethod := (Python.parameters h.parameters).head?.any (·.name == "self".toList)

/-- What stands after the parameters of a trimmed fragment. -/
def writtenReturns (returns : Option Text) : Text :=
  trimEnd ((returns.map (" -> ".toList ++ ·)).getD [])

/-- A header that can be told apart from what is written around its parts. -/
structure Header.WellFormed (h : Header) : Prop where
  name : IsWordRun h.name
  parameters : Grouped h.parameters (writtenReturns h.returns)
  returns : ∀ r ∈ h.returns, trim r = r ∧ ':' ∉ r

/-! ## Located headers are well formed -/

theorem isWordRun_of_defHead? {t rest : Text} {head : Bool × Text}
    (h : defHead? t = some (head, rest)) : IsWordRun head.2 := by
  rw [defHead?] at h
  obtain ⟨u, -, h⟩ := Option.bind_eq_some_iff.1 h
  obtain ⟨⟨name, v⟩, hword, h⟩ := Option.bind_eq_some_iff.1 h
  obtain ⟨rfl, -⟩ := Prod.mk.inj (Option.some.inj h)
  exact isWordRun_of_word? hword

theorem isWordRun_of_functionAt? {p : Place} {head : Bool × Text} {rest : Text}
    (h : functionAt? p = some (head, rest)) : IsWordRun head.2 := by
  rw [functionAt?] at h
  split at h
  · exact isWordRun_of_defHead? (Option.filter_eq_some_iff.1 h).1
  · cases h

theorem isWordRun_of_methodAt? {p : Place} {head : Bool × Text} {rest : Text}
    (h : methodAt? p = some (head, rest)) : IsWordRun head.2 := by
  rw [methodAt?] at h
  split at h
  · exact isWordRun_of_defHead? (Option.filter_eq_some_iff.1 h).1
  · cases h

/-- An annotation is read up to a colon or the end of the line, or it is nothing but blanks. -/
theorem exists_of_returnText? {t r : Text} (h : returnText? t = some r) :
    r = [] ∨ ∃ u : Text, r = trim (u.takeWhile fun c => c ≠ ':' && c ≠ '\n') := by
  simp only [returnText?] at h
  obtain ⟨u, -, h⟩ := Option.bind_eq_some_iff.1 h
  split at h
  · exact .inr ⟨trimStart u, (Option.some.inj h).symm⟩
  · split at h
    · exact .inl (Option.some.inj h).symm
    · cases h

theorem trim_of_returnText? {t r : Text} (h : returnText? t = some r) : trim r = r ∧ ':' ∉ r := by
  rcases exists_of_returnText? h with rfl | ⟨u, rfl⟩
  · exact ⟨rfl, List.not_mem_nil⟩
  · exact ⟨trim_trim _, not_mem_trim_takeWhile rfl u⟩

theorem header?_eq_some_iff {head : Bool × Text} {t : Text} {h : Header} :
    header? head t = some h ↔ ∃ params rest, group? t = some (params, rest) ∧
      h = ⟨head.1, head.2, collapse params, returnText? rest⟩ := by
  simp only [header?, Option.bind_eq_bind, Option.bind_eq_some_iff]
  constructor
  · rintro ⟨⟨params, rest⟩, hgroup, hh⟩
    exact ⟨params, rest, hgroup, (Option.some.inj hh).symm⟩
  · rintro ⟨params, rest, hgroup, rfl⟩
    exact ⟨(params, rest), hgroup, rfl⟩

theorem wellFormed_of_header? {head : Bool × Text} {t : Text} {h : Header}
    (hname : IsWordRun head.2) (hh : header? head t = some h) : h.WellFormed := by
  obtain ⟨params, rest, hgroup, rfl⟩ := header?_eq_some_iff.1 hh
  refine ⟨hname, ?_, fun r hr => trim_of_returnText? hr⟩
  -- A list that is never closed reaches the end of the text, so nothing is written after it.
  refine (group?_eq_some_iff.1 hgroup).2.collapse fun hrest => ?_
  rw [hrest]
  rfl

/-! ## Reading a written header -/

theorem trim_fragment (h : Header) :
    trim h.fragment = (if h.isAsync then "async ".toList else []) ++ ("def".toList ++
      ' ' :: (h.name ++ '(' :: (h.parameters ++ ')' :: writtenReturns h.returns))) := by
  have hfragment : h.fragment = ((if h.isAsync then "async ".toList else []) ++ "def ".toList ++
      h.name ++ '(' :: h.parameters) ++ ')' :: (h.returns.map (" -> ".toList ++ ·)).getD [] := by
    simp only [Header.fragment, List.append_assoc, List.cons_append]
  rw [hfragment, trim_append_cons (by decide), trimStart_eq_self (by cases h.isAsync <;> rfl)]
  simp only [List.append_assoc, List.cons_append]
  rfl

theorem returnType_writtenReturns {returns : Option Text} (h : ∀ r ∈ returns, trim r = r ∧ ':' ∉ r) :
    returnType (writtenReturns returns) = present? returns := by
  cases returns with
  | none => rfl
  | some r =>
    obtain ⟨htrim, hcolon⟩ := h r rfl
    have hwritten : writtenReturns (some r) = ' ' :: ("->".toList ++ trimEnd (' ' :: r)) :=
      trimEnd_append_cons (c := '>') (by decide) [' ', '-'] (' ' :: r)
    have hpad : trim (trimEnd (' ' :: r)) = r := by
      rw [trim_trimEnd, trim_cons_of_blank isBlank_space, htrim]
    have hkeep : dropTrailing (· == ':') r = r := by
      refine dropTrailing_eq_self fun c hc => beq_false_of_ne ?_
      rintro rfl
      exact hcolon (List.mem_of_getLast? hc)
    have hstart : trimStart (' ' :: ("->".toList ++ trimEnd (' ' :: r))) =
        "->".toList ++ trimEnd (' ' :: r) := rfl
    rw [hwritten, returnType, hstart, after?_append]
    simp only [Option.bind_eq_bind, Option.bind_some, hpad, hkeep, htrim, present?]

/-- A well-formed header is read back as what it says. -/
theorem signature_fragment {h : Header} (hw : h.WellFormed) :
    signature (trim h.fragment) = .ok h.signature := by
  have hasync : flag "async" (trim h.fragment) = (h.isAsync, "def".toList ++
      ' ' :: (h.name ++ '(' :: (h.parameters ++ ')' :: writtenReturns h.returns))) := by
    rw [trim_fragment]
    cases h.isAsync with
    | true => exact flag_append "async" rfl
    | false => exact flag_of_head (c := 'a') rfl (by simp)
  have hname : word? (h.name ++ '(' :: (h.parameters ++ ')' :: writtenReturns h.returns)) =
      some (h.name, '(' :: (h.parameters ++ ')' :: writtenReturns h.returns)) :=
    run?_append hw.name.1 hw.name.2 rfl
  have hclose : group? ('(' :: (h.parameters ++ ')' :: writtenReturns h.returns)) =
      some (h.parameters, writtenReturns h.returns) := group?_of_grouped hw.parameters
  rw [signature, trim_trim, hasync]
  simp only [keyword?_append (hw.name.notBefore_isBlank _), Option.bind_some, hname,
    trimStart_cons_of_not (show isBlank '(' = false from rfl), hclose,
    returnType_writtenReturns hw.returns]
  rfl

theorem head?_trim_classEntry (c : ClassEntry) : (trim c.fragment).head? = some 'c' := by
  rw [show c.fragment = [] ++ 'c' :: ("lass ".toList ++ c.name ++
    (c.bases.map fun b => '(' :: b ++ [')']).getD []) from rfl, trim_append_cons (by decide)]
  rfl

/-- Class entries only say where methods come from. -/
theorem signature_classEntry (c : ClassEntry) :
    signature (trim c.fragment) = .error .notDefHeader := by
  have hhead := head?_trim_classEntry c
  rw [signature, trim_trim, flag_of_head (c := 'a') rfl (by rw [hhead]; decide)]
  simp only [keyword?_eq_none_of_head (show "def".toList.head? = some 'd' from rfl)
    (by rw [hhead]; decide)]
  rfl

/-! ## Sources -/

theorem trim_fragment_ne_nil (h : Header) : trim h.fragment ≠ [] := by
  rw [trim_fragment]
  cases h.isAsync <;> exact List.cons_ne_nil _ _

theorem mem_headers_iff {t : Text} {h : Header} :
    h ∈ headers t ↔ ∃ head rest, Candidate t head rest ∧ header? head rest = some h := by
  constructor
  · intro hh
    rcases List.mem_append.1 hh with hh | hh
    · obtain ⟨s, hs, hh⟩ := List.mem_filterMap.1 hh
      exact ⟨s.found, s.rest, .function hs, hh⟩
    · obtain ⟨c, hc, hh⟩ := List.mem_flatMap.1 hh
      obtain ⟨s, hs, hh⟩ := List.mem_filterMap.1 hh
      exact ⟨s.found, s.rest, .method hc hs, hh⟩
  · rintro ⟨head, rest, hcandidate, hh⟩
    cases hcandidate with
    | function hs => exact List.mem_append_left _ (List.mem_filterMap.2 ⟨_, hs, hh⟩)
    | method hc hs =>
      refine List.mem_append_right _ (List.mem_flatMap.2 ⟨_, hc, ?_⟩)
      exact List.mem_filterMap.2 ⟨_, hs, hh⟩

theorem Candidate.isWordRun {t rest : Text} {head : Bool × Text} (h : Candidate t head rest) :
    IsWordRun head.2 := by
  cases h with
  | function hs =>
    obtain ⟨a, b, -, -, hread⟩ := exists_cut_of_mem_sites hs
    exact isWordRun_of_functionAt? hread
  | method _ hs =>
    obtain ⟨a, b, -, -, hread⟩ := exists_cut_of_mem_sites hs
    exact isWordRun_of_methodAt? hread

theorem wellFormed_of_mem_headers {t : Text} {h : Header} (hh : h ∈ headers t) : h.WellFormed := by
  obtain ⟨head, rest, hcandidate, hh⟩ := mem_headers_iff.1 hh
  exact wellFormed_of_header? hcandidate.isWordRun hh

theorem located_iff {t f : Text} {s : Signature} :
    Located t f s ↔ ∃ h ∈ headers t, f = trim h.fragment ∧ s = h.signature := by
  constructor
  · rintro ⟨hcandidate, hgroup⟩
    exact ⟨_, mem_headers_iff.2 ⟨_, _, hcandidate, header?_eq_some_iff.2 ⟨_, _, hgroup, rfl⟩⟩, rfl, rfl⟩
  · rintro ⟨h, hh, rfl, rfl⟩
    obtain ⟨head, rest, hcandidate, hh⟩ := mem_headers_iff.1 hh
    obtain ⟨params, tail, hgroup, rfl⟩ := header?_eq_some_iff.1 hh
    exact .intro hcandidate hgroup

/-- The fragments of a source are its headers and its class entries. -/
theorem mem_fragments_iff {source f : Text} : f ∈ fragments source ↔
    (∃ h ∈ headers (CommentStyle.hash.strip source), f = trim h.fragment) ∨
      ∃ c ∈ classes (CommentStyle.hash.strip source), f = trim c.fragment := by
  rw [fragments, mem_distinct]
  constructor
  · rintro ⟨-, g, hg, rfl⟩
    rcases List.mem_append.1 hg with hg | hg
    · obtain ⟨h, hh, rfl⟩ := List.mem_map.1 hg
      exact .inl ⟨h, List.mem_append_left _ hh, rfl⟩
    · obtain ⟨s, hs, hg⟩ := List.mem_flatMap.1 hg
      rcases List.mem_cons.1 hg with rfl | hg
      · exact .inr ⟨_, List.mem_map_of_mem hs, rfl⟩
      · obtain ⟨h, hh, rfl⟩ := List.mem_map.1 hg
        exact .inl ⟨h, List.mem_append_right _ (List.mem_flatMap.2 ⟨s, hs, hh⟩), rfl⟩
  · rintro (⟨h, hh, rfl⟩ | ⟨c, hc, rfl⟩)
    · refine ⟨trim_fragment_ne_nil h, h.fragment, ?_, rfl⟩
      rcases List.mem_append.1 hh with hh | hh
      · exact List.mem_append_left _ (List.mem_map_of_mem hh)
      · obtain ⟨s, hs, hh⟩ := List.mem_flatMap.1 hh
        refine List.mem_append_right _ (List.mem_flatMap.2 ⟨s, hs, ?_⟩)
        exact List.mem_cons_of_mem _ (List.mem_map_of_mem hh)
    · obtain ⟨s, hs, rfl⟩ := List.mem_map.1 hc
      refine ⟨?_, (classEntry s.found s.rest).1.fragment, ?_, rfl⟩
      · intro hnil
        have hhead := head?_trim_classEntry (classEntry s.found s.rest).1
        rw [hnil] at hhead
        cases hhead
      · exact List.mem_append_right _ (List.mem_flatMap.2 ⟨s, hs, List.mem_cons_self⟩)

/-- What is located in a source is written and read back. -/
theorem read_located {source f : Text} {s : Signature}
    (hs : Located (CommentStyle.hash.strip source) f s) :
    f ∈ fragments source ∧ signature f = .ok s := by
  obtain ⟨h, hh, rfl, rfl⟩ := located_iff.1 hs
  exact ⟨mem_fragments_iff.2 (.inl ⟨h, hh, rfl⟩), signature_fragment (wellFormed_of_mem_headers hh)⟩

/-- Whatever is written of a source was located in it, or is a class entry. -/
theorem located_of_mem_fragments {source f : Text} (hf : f ∈ fragments source) :
    (∃ s, Located (CommentStyle.hash.strip source) f s) ∨
      ∃ c ∈ classes (CommentStyle.hash.strip source), f = trim c.fragment := by
  rcases mem_fragments_iff.1 hf with ⟨h, hh, rfl⟩ | hclass
  · exact .inl ⟨_, located_iff.2 ⟨h, hh, rfl, rfl⟩⟩
  · exact .inr hclass

end Synopsis.Python
