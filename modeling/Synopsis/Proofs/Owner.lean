import Synopsis.Proofs.Language
import Synopsis.Proofs.Scan.Site

/-!
# Owner names

The owner of a signature is read from a marker or, in Go, from the receiver. A marker names its owner by
letters, digits, underscores and dollar signs alone. A receiver is cut at blanks, at its type arguments,
behind its leading stars and behind its package, and what is left is the owner as it stands. So an owner
never holds a blank, a dot or an opening bracket, and no other sign either unless the type of the
receiver is written with one (`className_bare`). Parentheses around the type are such signs, and they
keep the stars inside them (`className_parenthesizedReceiver`).
-/

namespace Synopsis

open Text

/-- A name without blanks and without any of the given signs. -/
def Bare (signs : String) (name : Text) : Prop :=
  name ≠ [] ∧ ∀ c ∈ name, c ∉ signs.toList ∧ isBlank c = false

theorem bare_iff {signs : String} {name : Text} : Bare signs name ↔
    (!name.isEmpty && name.all fun c => !signs.toList.contains c && !isBlank c) = true := by
  simp [Bare]

instance (signs : String) : DecidablePred (Bare signs) := fun _ => decidable_of_iff _ bare_iff.symm

/-- The signs of pointers, references, qualifiers, type arguments and groups. -/
def typeSigns : String := "*&.:[]<>()"

theorem Bare.weaken {name : Text} (h : Bare typeSigns name) : Bare ".[" name := by
  have hsigns : ".[".toList.all typeSigns.toList.contains = true := by decide
  refine ⟨h.1, fun c hc => ⟨fun hmem => (h.2 c hc).1 ?_, (h.2 c hc).2⟩⟩
  exact List.contains_iff_mem.1 (List.all_eq_true.1 hsigns c hmem)

theorem bare_of_all {name : Text} (hne : name ≠ []) (h : name.all isDollarWord = true) :
    Bare typeSigns name := by
  refine ⟨hne, fun c hc => ?_⟩
  have hword := List.all_eq_true.1 h c hc
  have hsigns : typeSigns.toList.all (!isDollarWord ·) = true := by decide
  refine ⟨fun hmem => ?_, isBlank_of_isDollarWord hword⟩
  have hsign := List.all_eq_true.1 hsigns c hmem
  rw [hword] at hsign
  cases hsign

/-! ## Owners in markers -/

theorem Script.bare_owner {f o : Text} (h : (splitOwner f).2 = some o) : Bare typeSigns o := by
  unfold splitOwner at h
  split at h
  · next s hs =>
    cases h
    obtain ⟨p, hread⟩ := exists_read_of_firstSite? hs
    obtain ⟨t, -, hrun⟩ := Option.bind_eq_some_iff.1 hread
    obtain ⟨-, hne, hall, -⟩ := eq_append_of_run? hrun
    exact bare_of_all hne hall
  · cases h

theorem Java.bare_owner {f o : Text} (h : (splitOwner f).2 = some o) : Bare typeSigns o := by
  unfold splitOwner at h
  split at h
  · next s hs =>
    cases h
    obtain ⟨p, hread⟩ := exists_read_of_firstSite? hs
    obtain ⟨t, -, hread⟩ := Option.bind_eq_some_iff.1 hread
    obtain ⟨⟨owner, rest⟩, hrun, hread⟩ := Option.bind_eq_some_iff.1 hread
    simp only at hread
    split at hread
    · obtain ⟨rfl, -⟩ := Prod.mk.inj (Option.some.inj hread)
      obtain ⟨-, hne, hall, -⟩ := eq_append_of_run? hrun
      exact bare_of_all hne hall
    · cases hread
  · cases h

theorem Php.isWordRun_of_ownerAt? {p : Place} {o : Text} (h : ownerAt? p = some o) : IsWordRun o := by
  unfold ownerAt? at h
  obtain ⟨t, -, h⟩ := Option.bind_eq_some_iff.1 h
  obtain ⟨⟨run, rest⟩, hrun, h⟩ := Option.bind_eq_some_iff.1 h
  obtain ⟨g, -, h⟩ := Option.bind_eq_some_iff.1 h
  split at h
  · next hend =>
    cases h
    have hname := all_isWord_of_isName (isName_of_name? hrun)
    obtain ⟨u, hu, hne⟩ := (Option.any_eq_true _ _).1 (Bool.and_eq_true_iff.1 hend).2
    -- the run ends in the two underscores that close the marker
    have hrun : run = u.reverse ++ ['_', '_'] := by
      have hreverse := congrArg List.reverse (after?_eq_some.1 hu)
      rwa [List.reverse_reverse, List.reverse_append] at hreverse
    have howner : run.dropLast.dropLast = u.reverse := by
      rw [hrun]
      simp
    rw [hrun, List.all_append] at hname
    show IsWordRun run.dropLast.dropLast
    rw [howner]
    exact ⟨by simpa using hne, (Bool.and_eq_true_iff.1 hname).1⟩
  · cases h

theorem Php.bare_owner {f o : Text} (h : (splitOwner f).2 = some o) : Bare typeSigns o := by
  unfold splitOwner at h
  split at h
  · next s hs =>
    cases h
    obtain ⟨p, hread⟩ := exists_read_of_firstSite? hs
    obtain ⟨o, hread, ho⟩ := Option.map_eq_some_iff.1 hread
    obtain ⟨hne, hall⟩ := isWordRun_of_ownerAt? hread
    rw [← (Prod.mk.inj ho).1]
    exact bare_of_all hne (List.all_eq_true.2 fun c hc =>
      isDollarWord_of_isWord (List.all_eq_true.1 hall c hc))
  · cases h

/-! ## Owners of methods -/

namespace Go

/-- The last word of a receiver in front of its type arguments, without its stars. -/
def typeWord? (receiver : Text) : Option Text :=
  (words (before '[' receiver)).getLast?.map fun w => w.dropWhile (· == '*')

/-- A receiver whose type, behind its stars, is written without signs but dots. -/
def IsPlain (receiver : Text) : Prop := ∀ w ∈ typeWord? receiver, ∀ c ∈ w, c ∉ "*&:]<>()".toList

theorem isPlain_iff {r : Text} : IsPlain r ↔
    ((typeWord? r).all fun w => w.all fun c => !"*&:]<>()".toList.contains c) = true := by
  unfold IsPlain
  cases typeWord? r with
  | none => simp
  | some w => simp

instance : DecidablePred IsPlain := fun _ => decidable_of_iff _ isPlain_iff.symm

theorem exists_typeWord? {r o : Text} (h : receiverType r = some o) :
    ∃ w, typeWord? r = some w ∧ o ≠ [] ∧ o = afterLast '.' w := by
  obtain ⟨v, hv, ho⟩ := Option.bind_eq_some_iff.1 h
  obtain ⟨hne, rfl⟩ := nonempty?_eq_some.1 ho
  refine ⟨v.dropWhile (· == '*'), ?_, hne, rfl⟩
  unfold typeWord?
  rw [hv]
  rfl

theorem mem_of_typeWord? {r w : Text} (h : typeWord? r = some w) {c : Char} (hc : c ∈ w) :
    c ≠ '[' ∧ isBlank c = false := by
  obtain ⟨v, hv, rfl⟩ := Option.map_eq_some_iff.1 h
  have hmem := (List.dropWhile_suffix _).subset hc
  obtain ⟨hbefore, hblank⟩ := mem_of_mem_words (List.mem_of_getLast? hv) hmem
  refine ⟨?_, hblank⟩
  rintro rfl
  exact not_mem_before '[' r hbefore

theorem bare_receiverType {r o : Text} (h : receiverType r = some o) :
    Bare ".[" o ∧ (IsPlain r → Bare typeSigns o) := by
  obtain ⟨w, hw, hne, rfl⟩ := exists_typeWord? h
  have hchar (c : Char) (hc : c ∈ afterLast '.' w) : c ∈ w ∧ c ≠ '.' ∧ c ≠ '[' ∧ isBlank c = false := by
    obtain ⟨hmem, hdot⟩ := mem_of_mem_afterLast hc
    exact ⟨hmem, hdot, mem_of_typeWord? hw hmem⟩
  constructor
  · refine ⟨hne, fun c hc => ?_⟩
    obtain ⟨-, hdot, hsquare, hblank⟩ := hchar c hc
    exact ⟨by simp [hdot, hsquare], hblank⟩
  · intro hplain
    refine ⟨hne, fun c hc => ?_⟩
    obtain ⟨hmem, hdot, hsquare, hblank⟩ := hchar c hc
    have hsigns : typeSigns.toList.all (fun d => d == '.' || d == '[' || "*&:]<>()".toList.contains d) =
        true := by decide
    refine ⟨fun hsign => ?_, hblank⟩
    have hc := List.all_eq_true.1 hsigns c hsign
    rw [beq_false_of_ne hdot, beq_false_of_ne hsquare, Bool.false_or, Bool.false_or] at hc
    exact hplain w hw c hmem (List.contains_iff_mem.1 hc)

end Go

/-- An owner is no empty name and holds no blank, dot or opening bracket. It holds no other sign of a
    type either, unless it is read from a receiver whose type is written with one. -/
theorem className_bare {l : Language} {source : Text} {s : Signature} (hs : s ∈ l.extract source)
    {o : Text} (ho : s.className = some o) :
    Bare ".[" o ∧
      ((l = .go → ∀ f ∈ Go.fragments source, ∀ r ∈ Go.receiver? f, Go.IsPlain r) → Bare typeSigns o) := by
  obtain ⟨-, f, hf, hsignature⟩ := Language.mem_extract.1 hs
  rcases Language.read_of_signature hsignature with ⟨-, hentry⟩ | ⟨howner, -⟩
  · rw [hentry] at ho
    cases ho
  · rw [howner] at ho
    cases l with
    | typescript => exact ⟨(Script.bare_owner ho).weaken, fun _ => Script.bare_owner ho⟩
    | java => exact ⟨(Java.bare_owner ho).weaken, fun _ => Java.bare_owner ho⟩
    | php => exact ⟨(Php.bare_owner ho).weaken, fun _ => Php.bare_owner ho⟩
    | python => cases ho
    | rust => cases ho
    | go =>
      obtain ⟨r, hr, htype⟩ := Option.bind_eq_some_iff.1 ho
      obtain ⟨hbare, hplain⟩ := Go.bare_receiverType htype
      exact ⟨hbare, fun hall => hplain (hall rfl f hf r hr)⟩

/-- A method on a pointer to a type with arguments, from a package. -/
def pointerMethod : Text := "func (r *p.T[K]) Get(k K) \x7b\n\x7d\n".toList

/-- Its owner is the type alone. -/
theorem className_bare_pointerMethod :
    (Language.go.extract pointerMethod).map (·.className) = [some "T".toList] ∧
      Bare typeSigns "T".toList := by
  have howner : (Language.go.extract pointerMethod).map (·.className) = [some "T".toList] := by
    decide +kernel
  obtain ⟨s, hs, ho⟩ := List.mem_map.1 (howner ▸ List.mem_singleton_self _)
  exact ⟨howner, (className_bare hs ho).2 fun _ => by decide +kernel⟩

/-- A method whose receiver has its type in parentheses. -/
def parenthesizedReceiver : Text := "func (r (*T)) F() \x7b\n\x7d\n".toList

/-- Its owner keeps the parentheses and the star in them. -/
theorem className_parenthesizedReceiver :
    (Language.go.extract parenthesizedReceiver).map (·.className) = [some "(*T)".toList] ∧
      ¬ Bare typeSigns "(*T)".toList := by
  decide +kernel

end Synopsis
