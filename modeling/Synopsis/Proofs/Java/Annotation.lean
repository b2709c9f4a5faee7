import Synopsis.Proofs.Java.Composition

/-!
# Java: annotations in front of a member

The arguments of an annotation are read with at most one level of parentheses inside, while headers
and bodies are cut with any number of them. An annotation that is read as a whole is as good as blanks
(`entries_readable`). Of another one the list stays, in front of which at most the sign and the name are
left, and a header that begins so declares nothing (`entries_unreadable`). So an annotation changes
nothing or the member behind it is lost (`extract_annotated`); a call in a call is enough for that
(`extract_deepAnnotation`).
-/

namespace Synopsis.Java

open Text

/-! ## Annotations -/

/-- Inside a list parentheses nest no more than one level deep. -/
def Shallow (args : Text) : Prop := ∀ u, u <+: args → u.count '(' ≤ u.count ')' + 1

/-- From inside `d` parentheses no more than two are ever open. -/
def ShallowFrom (d : Nat) (s : Text) : Prop := ∀ u, u <+: s → d + u.count '(' ≤ u.count ')' + 2

theorem shallowFrom_iff {d : Nat} {s : Text} : ShallowFrom d s ↔
    ∀ n ∈ List.range (s.length + 1), d + (s.take n).count '(' ≤ (s.take n).count ')' + 2 := by
  constructor
  · intro h n _
    exact h _ (List.take_prefix n s)
  · rintro h u ⟨v, rfl⟩
    have hcount := h u.length (List.mem_range.2 (by rw [List.length_append]; omega))
    rwa [List.take_left] at hcount

instance (d : Nat) : DecidablePred (ShallowFrom d) := fun _ => decidable_of_iff _ shallowFrom_iff.symm

theorem shallow_iff {args : Text} : Shallow args ↔ ShallowFrom 1 args :=
  forall₂_congr fun u _ => by omega

instance : DecidablePred Shallow := fun _ => decidable_of_iff _ shallow_iff.symm

/-- Whether a character may stand in the name of an annotation. -/
def isAnnotationChar (c : Char) : Bool := isDollarWord c || c == '.'

/-- A dotted name. -/
structure IsAnnotationName (name : Text) : Prop where
  ne_nil : name ≠ []
  chars : name.all isAnnotationChar = true

/-- What may be written between the parentheses of an annotation: every parenthesis matched, without
    literals and braces. -/
structure IsArguments (args : Text) : Prop where
  closed : depthAfter '(' ')' 1 args = some 1
  chars : args.all isPlain = true

/-- An annotation that is read as a whole: its name does not begin with the word that opens an annotation
    type, and parentheses nest no more than one level deep in its arguments. -/
def Readable (name args : Text) : Prop := wholeWord? "interface" name = none ∧ Shallow args

instance (name args : Text) : Decidable (Readable name args) :=
  inferInstanceAs (Decidable (_ ∧ _))

/-- An annotation as it is written. -/
def annotationText (name args : Text) : Text := '@' :: (name ++ '(' :: (args ++ [')']))

/-! ## What is read of an annotation -/

theorem shallowFrom_nil {d : Nat} : ShallowFrom d [] ↔ d ≤ 2 := by
  simp [ShallowFrom]

theorem shallowFrom_cons {d : Nat} {c : Char} {s : Text} : ShallowFrom d (c :: s) ↔
    d ≤ 2 ∧ ∀ u, u <+: s → d + (c :: u).count '(' ≤ (c :: u).count ')' + 2 := by
  constructor
  · intro h
    refine ⟨by simpa using h [] List.nil_prefix, fun u hu => h _ ((List.prefix_cons_inj c).2 hu)⟩
  · rintro ⟨hd, h⟩ u hu
    rcases List.prefix_cons_iff.1 hu with rfl | ⟨v, rfl, hv⟩
    · simpa using hd
    · exact h v hv

theorem shallowFrom_open {d : Nat} {s : Text} (hd : d ≤ 2) :
    ShallowFrom d ('(' :: s) ↔ ShallowFrom (d + 1) s := by
  rw [shallowFrom_cons, and_iff_right hd]
  refine forall₂_congr fun u _ => ?_
  rw [List.count_cons_self, List.count_cons_of_ne (by decide)]
  omega

theorem shallowFrom_close {d : Nat} {s : Text} (hd : d + 1 ≤ 2) :
    ShallowFrom (d + 1) (')' :: s) ↔ ShallowFrom d s := by
  rw [shallowFrom_cons, and_iff_right hd]
  refine forall₂_congr fun u _ => ?_
  rw [List.count_cons_self, List.count_cons_of_ne (by decide)]
  omega

theorem shallowFrom_plain {d : Nat} {c : Char} {s : Text} (hd : d ≤ 2) (hopen : c ≠ '(')
    (hclose : c ≠ ')') : ShallowFrom d (c :: s) ↔ ShallowFrom d s := by
  rw [shallowFrom_cons, and_iff_right hd]
  refine forall₂_congr fun u _ => ?_
  rw [List.count_cons_of_ne hopen, List.count_cons_of_ne hclose]

/-- The reader reaches the end of a list exactly if no more than two parentheses are ever open. -/
theorem afterArguments?_append {deep : Bool} {s : Text}
    (h : depthAfter '(' ')' (if deep then 2 else 1) s = some 1) (t : Text) :
    afterArguments? deep (s ++ ')' :: t) =
      if ShallowFrom (if deep then 2 else 1) s then some t else none := by
  induction s generalizing deep with
  | nil =>
    cases deep with
    | true => cases h
    | false =>
      rw [if_pos (shallowFrom_nil.2 (by decide))]
      rfl
  | cons c s ih =>
    rw [depthAfter] at h
    rw [List.cons_append, afterArguments?]
    by_cases hopen : c = '('
    · subst hopen
      rw [if_pos rfl] at h ⊢
      cases deep with
      | true =>
        have hdeep : ¬ ShallowFrom 2 ('(' :: s) := by
          rw [shallowFrom_open (Nat.le_refl 2)]
          intro hs
          have := hs [] List.nil_prefix
          simp at this
        rw [if_pos rfl, if_pos rfl, if_neg hdeep]
      | false =>
        rw [if_neg Bool.false_ne_true, @ih true h]
        exact ite_congr (propext (shallowFrom_open (Nat.le_succ 1)).symm) (fun _ => rfl) fun _ => rfl
    · rw [if_neg hopen] at h ⊢
      by_cases hclose : c = ')'
      · subst hclose
        rw [if_pos rfl] at h ⊢
        cases deep with
        | true =>
          rw [if_pos rfl, @ih false h]
          exact ite_congr (propext (shallowFrom_close (Nat.le_refl 2)).symm) (fun _ => rfl) fun _ => rfl
        | false => cases h
      · rw [if_neg hclose] at h ⊢
        have hle : (if deep then 2 else 1) ≤ 2 := by cases deep <;> decide
        rw [ih h]
        exact ite_congr (propext (shallowFrom_plain hle hopen hclose).symm) (fun _ => rfl) fun _ => rfl

/-- What may be left in front of the list of an annotation: nothing, or the sign and a name. -/
def IsRemnant (s : Text) : Prop := s = [] ∨ ∃ name, s = '@' :: name ∧ name.all isAnnotationChar = true

/-- A word is read in front of a list as it is without the list. -/
theorem wholeWord?_append_list {word : String} (hfree : '(' ∉ word.toList) (s t : Text) :
    wholeWord? word (s ++ '(' :: t) = (wholeWord? word s).map (· ++ '(' :: t) := by
  have hedge (r : Text) : notBefore isWord (r ++ '(' :: t) = notBefore isWord r := by
    cases r with
    | nil => rfl
    | cons c r => rfl
  rw [wholeWord?, wholeWord?, after?_append_cons hfree, Option.filter_map]
  exact congrArg (fun p => ((after? word.toList s).filter p).map _) (funext hedge)

section Annotation

variable {name args : Text} (hname : IsAnnotationName name) (hargs : IsArguments args)

theorem annotationText_append (t : Text) :
    annotationText name args ++ t = '@' :: (name ++ '(' :: (args ++ ')' :: t)) := by
  simp [annotationText]

/-- No annotation is read where the word that opens an annotation type follows the sign. -/
theorem stripAnnotations_interface (hname : IsAnnotationName name)
    (hword : wholeWord? "interface" name ≠ none) (t : Text) :
    stripAnnotations (annotationText name args ++ t) =
      '@' :: name ++ '(' :: stripAnnotations (args ++ ')' :: t) := by
  have hfree : '@' ∉ name ++ ['('] := by
    simp [not_mem_of_all (x := '@') hname.chars (by decide)]
  have hword' : (wholeWord? "interface" (name ++ '(' :: (args ++ ')' :: t))).isSome = true := by
    rw [wholeWord?_append_list (by decide), Option.isSome_map]
    exact Option.isSome_iff_ne_none.2 hword
  have hnone : annotationAt? ⟨none, 0, '@' :: (name ++ '(' :: (args ++ ')' :: t))⟩ = none := by
    have hsign (u : Text) : char? '@' ('@' :: u) = some u := rfl
    simp only [annotationAt?, hsign, Option.bind_eq_bind, Option.bind_some, hword', if_true]
  have hrest := stripAnnotations_append hfree (args ++ ')' :: t)
  rw [List.append_assoc, List.append_assoc] at hrest
  rw [annotationText_append, stripAnnotations_cons_of_none hnone]
  exact congrArg ('@' :: ·) hrest

include hname hargs

/-- An annotation is read to its end, or only its name is. -/
theorem annotationAt?_annotationText (hword : wholeWord? "interface" name = none) (prev : Option Char)
    (k : Nat) (t : Text) : annotationAt? ⟨prev, k, annotationText name args ++ t⟩ =
      some (if Shallow args then t else '(' :: (args ++ ')' :: t)) := by
  have hsign (u : Text) : char? '@' ('@' :: u) = some u := rfl
  have hskip : skip1? isAnnotationChar (name ++ '(' :: (args ++ ')' :: t)) =
      some ('(' :: (args ++ ')' :: t)) := by
    obtain ⟨c, u, hc⟩ := List.exists_cons_of_ne_nil hname.ne_nil
    have hfirst : isAnnotationChar c = true := List.all_eq_true.1 hname.chars c (by simp [hc])
    obtain ⟨-, hdrop⟩ := takeWhile_append_of_all (t := '(' :: (args ++ ')' :: t)) hname.chars rfl
    rw [skip1?_eq, hdrop, if_pos (by rw [hc]; exact hfirst)]
  have hlist : char? '(' (trimStart ('(' :: (args ++ ')' :: t))) = some (args ++ ')' :: t) := rfl
  have hread : afterArguments? false (args ++ ')' :: t) =
      if ShallowFrom 1 args then some t else none := @afterArguments?_append false args hargs.closed t
  have hword' : wholeWord? "interface" (name ++ '(' :: (args ++ ')' :: t)) = none := by
    rw [wholeWord?_append_list (by decide), hword, Option.map_none]
  unfold isAnnotationChar at hskip
  simp only [annotationAt?, annotationText_append, hsign, hword', hskip, hlist, hread,
    Option.bind_eq_bind, Option.bind_some, Option.isSome_none, Bool.false_eq_true, if_false]
  by_cases hshallow : Shallow args
  · rw [if_pos hshallow, if_pos (shallow_iff.1 hshallow)]
    rfl
  · rw [if_neg hshallow, if_neg (mt shallow_iff.2 hshallow)]
    rfl

/-- An annotation within the reach of the reader is replaced by a space. -/
theorem stripAnnotations_readable (hread : Readable name args) (t : Text) :
    stripAnnotations (annotationText name args ++ t) = ' ' :: stripAnnotations t := by
  refine replaceAll_of_read [' '] (fun _ _ _ _ _ => rfl) (List.cons_ne_nil _ _) ?_
  rw [annotationAt?_annotationText hname hargs hread.1, if_pos hread.2]

/-- Of another annotation the list stays, with nothing or with the sign and the name in front of it. -/
theorem stripAnnotations_unreadable (hread : ¬ Readable name args) (t : Text) :
    ∃ g s u, blank g = true ∧ IsRemnant s ∧
      stripAnnotations (annotationText name args ++ t) = g ++ (s ++ '(' :: u) := by
  by_cases hword : wholeWord? "interface" name = none
  · have htext : annotationText name args ++ t = ('@' :: name) ++ '(' :: (args ++ ')' :: t) :=
      annotationText_append t
    have hat := annotationAt?_annotationText hname hargs hword none 0 t
    rw [if_neg fun hshallow => hread ⟨hword, hshallow⟩, htext] at hat
    have hall := replaceAll_of_read [' '] (fun _ _ _ _ _ => rfl) (List.cons_ne_nil '@' name) hat
    have hlist := stripAnnotations_append (s := ['(']) (by decide) (args ++ ')' :: t)
    refine ⟨[' '], [], stripAnnotations (args ++ ')' :: t), by decide, .inl rfl, ?_⟩
    rw [htext]
    exact hall.trans (congrArg (' ' :: ·) hlist)
  · exact ⟨[], '@' :: name, stripAnnotations (args ++ ')' :: t), rfl, .inr ⟨name, rfl, hname.chars⟩,
      stripAnnotations_interface hname hword t⟩

end Annotation

/-! ## Chunks -/

theorem isBlank_of_isAnnotationChar {c : Char} (hc : isAnnotationChar c = true) : isBlank c = false := by
  rcases Bool.or_eq_true_iff.1 hc with hc | hc
  · exact isBlank_of_isDollarWord hc
  · rw [beq_iff_eq.1 hc]
    decide

/-- What precedes the name at the end of a text begins as the text does, with a sign. -/
theorem lead_of_splitName? {c : Char} (hword : isDollarWord c = false) (hc : isBlank c = false)
    {t : Text} {p : Text × Text} (h : splitName? (c :: t) = some p) : ∃ l, p.1 = c :: l := by
  have hend : trimEnd (c :: t) = c :: trimEnd t := trimEnd_append_cons hc [] t
  have hlen : (takeTrailing isDollarWord (c :: trimEnd t)).length ≤ (trimEnd t).length := by
    rcases List.suffix_cons_iff.1 (suffix_takeTrailing isDollarWord (c :: trimEnd t)) with heq | hshort
    · have hall := all_takeTrailing isDollarWord (c :: trimEnd t)
      rw [heq, List.all_cons, hword] at hall
      cases hall
    · exact hshort.length_le
  have hname := Nat.le_trans (List.dropWhile_sublist (!isDollarStart ·)).length_le hlen
  rw [splitName?, hend] at h
  split at h
  · cases h
  · obtain rfl := Option.some.inj h
    rw [List.length_cons, Nat.succ_sub hname, List.take_succ_cons]
    exact ⟨_, trim_append_cons hc [] _⟩

namespace IsRemnant

variable {s : Text} (hs : IsRemnant s)

include hs

theorem solid : ∀ c ∈ s, isBlank c = false := by
  obtain rfl | ⟨name, rfl, hname⟩ := hs
  · exact List.forall_mem_nil _
  · intro c hc
    rcases List.mem_cons.1 hc with rfl | hc
    · decide
    · exact isBlank_of_isAnnotationChar (List.all_eq_true.1 hname c hc)

theorem not_mem {c : Char} (hsign : c ≠ '@') (hc : isAnnotationChar c = false) : c ∉ s := by
  obtain rfl | ⟨name, rfl, hname⟩ := hs
  · exact List.not_mem_nil
  · simp [hsign, not_mem_of_all hname hc]

/-- What precedes a name at its end begins with the sign, and no modifier takes the sign away. -/
theorem mem_skipModifiers {p : Text × Text} (hp : splitName? s = some p) : '@' ∈ skipModifiers p.1 := by
  obtain rfl | ⟨name, rfl, -⟩ := hs
  · cases hp.symm.trans (show splitName? [] = none by decide)
  · obtain ⟨l, hl⟩ := lead_of_splitName? (by decide) (by decide) hp
    have hheads : ∀ w ∈ modifiers, w.toList.head? ≠ none ∧ w.toList.head? ≠ some '@' := by decide
    have hnone : modifiers.findSome? (wholeWord? · ('@' :: l)) = none := by
      refine List.findSome?_eq_none_iff.2 fun w hw => ?_
      obtain ⟨c, hc⟩ := Option.ne_none_iff_exists'.1 (hheads w hw).1
      have hne : ('@' :: l).head? ≠ some c := hc ▸ (hheads w hw).2.symm
      rw [wholeWord?, after?_eq_none_of_head hc hne, Option.filter_none]
    have hself : skipModifiers ('@' :: l) = '@' :: l := by
      refine skipModifiers_eq_self ?_
      rw [afterModifier?, hnone]
      rfl
    rw [hl, hself]
    exact List.mem_cons_self

end IsRemnant

section Remnant

variable {h g s u : Text} (hleft : stripAnnotations h = g ++ (s ++ '(' :: u)) (hg : blank g = true)
  (hs : IsRemnant s)

include hleft hg hs

/-- A header of which the list of an annotation is left declares no type. -/
theorem typeName?_of_remnant : typeName? h = none := by
  have hfree {c : Char} (hb : isBlank c = false) (hsign : c ≠ '@') (hc : isAnnotationChar c = false) :
      c ∉ g ++ s := by
    simp [not_mem_of_all hg hb, hs.not_mem hsign hc]
  have hnone : firstSite? typeAt? (g ++ s) = none := by
    refine firstSite?_typeAt?_eq_none (fun w hw hword => ?_) hs.solid
    have hrun := isWordRun_typeWords w hw
    exact not_hasWord_nil hrun (hasWord_of_blank_append hrun hg (t := []) (by rwa [List.append_nil]))
  rw [typeName?, hleft, ← List.append_assoc, before_append (hfree (by decide) (by decide) (by decide))]
  simp only [List.contains_iff_mem]
  rw [if_neg (hfree (by decide) (by decide) (by decide)), hnone]
  rfl

/-- Nor does it declare a member. -/
theorem member?_of_remnant (owner : Text) : member? owner h = none := by
  have hopen : '(' ∉ s := hs.not_mem (by decide) (by decide)
  have htrim : trim (stripAnnotations h) = s ++ '(' :: trimEnd u := by
    have hhead : s.head?.any isBlank = false := by
      cases s with
      | nil => rfl
      | cons c s => exact hs.solid c List.mem_cons_self
    rw [hleft, ← List.append_assoc, trim_append_cons (by decide), trimStart_append_of_blank hg,
      trimStart_eq_self hhead]
  rw [member?]
  simp only [htrim, before_append hopen, List.drop_left]
  split
  · rfl
  · cases group? ('(' :: trimEnd u) with
    | none => rfl
    | some list =>
      simp only [Option.bind_eq_bind, Option.bind_some]
      split
      · rfl
      · cases hsplit : splitName? s with
        | none => rfl
        | some found =>
          -- The list may be closed, but the sign in front of it stands in no type.
          have hmem := (mem_collapse_iff (c := '@') (by decide)).2 (hs.mem_skipModifiers hsplit)
          have hsome : (collapse (skipModifiers found.1)).isEmpty = false :=
            List.isEmpty_eq_false_iff.2 (List.ne_nil_of_mem hmem)
          have hall : ¬ (collapse (skipModifiers found.1)).all isTypeChar = true := fun hall =>
            not_mem_of_all hall (by decide) hmem
          simp only [Option.bind_some, hsome, hall]
          rfl

end Remnant

/-- What a chunk declares depends on what is left of its header without its annotations. -/
theorem chunkEntries_congr {g g' : Text}
    (hg : ∀ t, stripAnnotations (g ++ t) = stripAnnotations (g' ++ t)) (owner : Option Text) (c : Chunk) :
    chunkEntries owner (c.withLead g) = chunkEntries owner (c.withLead g') := by
  cases c with
  | statement header => simp only [Chunk.withLead, chunkEntries, member?, hg]
  | block header body => simp only [Chunk.withLead, chunkEntries, typeName?, member?, hg]

/-- So two texts that leave the same in a header may stand for each other in front of it. -/
theorem entries_congr {g g' : Text} (hheader : IsHeader g) (hheader' : IsHeader g')
    (hg : ∀ t, stripAnnotations (g ++ t) = stripAnnotations (g' ++ t)) (owner : Option Text) (t : Text) :
    entries owner (g ++ t) = entries owner (g' ++ t) := by
  have hnext := nextChunk?_of_isHeader hheader t
  have hnext' := nextChunk?_of_isHeader hheader' t
  cases h : nextChunk? t with
  | none =>
    rw [h] at hnext hnext'
    rw [entries_of_nextChunk?_eq_none hnext, entries_of_nextChunk?_eq_none hnext']
  | some next =>
    rw [h] at hnext hnext'
    rw [entries_of_nextChunk? hnext, entries_of_nextChunk? hnext', chunkEntries_congr hg]

section Annotation

variable {gap name args : Text} (hgap : blank gap = true) (hname : IsAnnotationName name)
  (hargs : IsArguments args)

include hgap hname hargs

theorem isHeader_annotationText : IsHeader (gap ++ annotationText name args) := by
  have hquote (c : Char) (hc : c ∈ args) : isQuote c = false := by
    have hplain := List.all_eq_true.1 hargs.chars c hc
    simp only [isPlain, Bool.not_eq_true', Bool.or_eq_false_iff] at hplain
    exact hplain.1.1
  have hall : (gap ++ '@' :: name).all isHeaderChar = true := by
    rw [List.all_append, List.all_cons, all_isHeaderChar_of_blank hgap,
      all_isHeaderChar (by decide) hname.chars]
    decide
  have h := (isHeader_of_all hall).append (isHeader_group hquote hargs.closed)
  simpa [annotationText] using h

/-- An annotation that is read as a whole is as good as blanks, whatever it stands in front of. -/
theorem entries_readable (hread : Readable name args) (owner : Option Text) (t : Text) :
    entries owner (gap ++ annotationText name args ++ ' ' :: t) =
      entries owner (gap ++ "  ".toList ++ t) := by
  have hspace : IsHeader [' '] := isHeader_of_all (by decide)
  have hblanks : IsHeader (gap ++ "  ".toList) :=
    (isHeader_of_all (all_isHeaderChar_of_blank hgap)).append (hspace.append hspace)
  have hleave (t : Text) : stripAnnotations (gap ++ annotationText name args ++ [' '] ++ t) =
      stripAnnotations (gap ++ "  ".toList ++ t) := by
    have hfirst : stripAnnotations ("  ".toList ++ t) = ' ' :: stripAnnotations (' ' :: t) :=
      stripAnnotations_append (s := [' ']) (by decide) (' ' :: t)
    rw [List.append_assoc, List.append_assoc, List.append_assoc, stripAnnotations_blank_append hgap,
      stripAnnotations_blank_append hgap, stripAnnotations_readable hname hargs hread, hfirst]
    rfl
  have h := entries_congr ((isHeader_annotationText hgap hname hargs).append hspace) hblanks hleave owner t
  rwa [List.append_assoc _ [' '] t] at h

/-- With another annotation in front a chunk declares nothing. -/
theorem chunkEntries_unreadable (hread : ¬ Readable name args) (owner : Option Text) (c : Chunk) :
    chunkEntries owner (c.withLead (gap ++ annotationText name args)) = [] := by
  have hheader (h : Text) : typeName? (gap ++ annotationText name args ++ h) = none ∧
      owner.bind (member? · (gap ++ annotationText name args ++ h)) = none := by
    obtain ⟨g, s, u, hg, hs, hleft⟩ := stripAnnotations_unreadable hname hargs hread h
    have hblank : blank (gap ++ g) = true := by rw [blank_append, hgap, hg, Bool.and_self]
    have hleft' : stripAnnotations (gap ++ annotationText name args ++ h) =
        gap ++ g ++ (s ++ '(' :: u) := by
      rw [List.append_assoc, stripAnnotations_blank_append hgap, hleft, List.append_assoc]
    refine ⟨typeName?_of_remnant hleft' hblank hs, ?_⟩
    cases owner with
    | none => rfl
    | some owner => exact member?_of_remnant hleft' hblank hs owner
  cases c with
  | statement header =>
    rw [Chunk.withLead, chunkEntries, (hheader header).2]
    rfl
  | block header body =>
    simp only [Chunk.withLead, chunkEntries, hheader]
    rfl

/-- So the chunk behind it is lost. It ends where it would end without the annotation, since a header
    is cut with parentheses of any depth. -/
theorem entries_unreadable (hread : ¬ Readable name args) (owner : Option Text) {t rest : Text}
    {c : Chunk} (h : nextChunk? t = some (c, rest)) :
    entries owner (gap ++ annotationText name args ++ t) = entries owner rest := by
  have hnext := nextChunk?_of_isHeader (isHeader_annotationText hgap hname hargs) t
  rw [h] at hnext
  rw [entries_of_nextChunk? hnext, chunkEntries_unreadable hgap hname hargs hread, List.nil_append]

end Annotation

/-! ## Annotated members -/

/-- A type, one member of which is looked at. -/
structure MemberPlace where
  kind : TypeKind
  owner : Text
  before : Members
  member : Member
  after : Members
deriving DecidableEq, Repr

/-- The type as it is written, with a text in front of the member. -/
def MemberPlace.text (p : MemberPlace) (lead : Text) : Text :=
  typeHeader p.kind p.owner ++ '{' :: (p.before.text p.owner ++
    (lead ++ (p.member.text p.owner ++ (p.after.text p.owner ++ ['}']))))

theorem MemberPlace.text_eq (p : MemberPlace) (lead : Text) : p.text lead =
    typeHeader p.kind p.owner ++ '{' :: p.before.text p.owner ++
      (lead ++ (p.member.text p.owner ++ (p.after.text p.owner ++ ['}']))) := by
  rw [MemberPlace.text, List.append_assoc, List.cons_append]

theorem MemberPlace.blank_text (p : MemberPlace) (lead : Text) : blank (p.text lead) = false := by
  have hword : blank p.kind.word.toList = false := by cases p.kind <;> decide
  simp only [MemberPlace.text, typeHeader, blank_append, hword, Bool.false_and]

/-- A type whose parts can be told apart. -/
structure MemberPlace.WellFormed (p : MemberPlace) : Prop where
  owner : isName p.owner = true
  before : p.before.WellFormed
  member : p.member.WellFormed
  after : p.after.WellFormed

/-- What is declared besides the member. -/
def MemberPlace.others (p : MemberPlace) : List Entry :=
  .type p.owner :: (p.before.preorder p.owner ++ p.after.preorder p.owner)

/-- A member is the first chunk of any text that begins with it. -/
theorem exists_nextChunk?_member {owner : Text} (howner : isName owner = true) {m : Member}
    (hm : m.WellFormed) (t : Text) : ∃ c, nextChunk? (m.text owner ++ t) = some (c, t) := by
  have hheader {lead name params : Text} (hlead : lead.all isTypeChar = true)
      (hname : isName name = true) (hparams : IsParameters params) :
      IsHeader (memberHeader lead name params) :=
    isHeader_memberHeader blank_nil hlead hname hparams
  have hblock {h body : Text} (hh : IsHeader h) (hbody : Body body) :
      ∃ c, nextChunk? (h ++ " \x7b".toList ++ body ++ ['}'] ++ t) = some (c, t) := by
    have hnext := nextChunk?_of_block (hh.append (isHeader_of_all (s := [' ']) (by decide))) hbody t
    exact ⟨_, by simpa using hnext⟩
  cases m with
  | method result name params body =>
    obtain ⟨hresult, hname, hparams, hbody⟩ := hm
    cases body with
    | none =>
      have hnext := nextChunk?_of_statement (hheader hresult.leadChars hname hparams) t
      exact ⟨_, by simpa [Member.text] using hnext⟩
    | some body => exact hblock (hheader hresult.leadChars hname hparams) (hbody body rfl)
  | constructor params body => exact hblock (hheader List.all_nil howner hm.1) hm.2
  | field type name value =>
    obtain ⟨htype, hname, hvalue⟩ := hm
    have hnext := nextChunk?_of_statement (isHeader_fieldHeader blank_nil htype hname hvalue) t
    exact ⟨_, by simpa [Member.text] using hnext⟩

/-- The entries of a type begin with those in front of the member. -/
theorem MemberPlace.WellFormed.entries_text {p : MemberPlace} (hp : p.WellFormed) {lead : Text}
    (hlead : lead.all isPlain = true) : entries none (p.text lead) =
      .type p.owner :: (p.before.preorder p.owner ++ entries (some p.owner)
        (p.before.lastGap ++ (lead ++ (p.member.text p.owner ++ p.after.text p.owner)))) := by
  have hmember := Body.member blank_nil hp.member hp.owner (body_text hp.owner hp.after)
  have hbody := body_text_append hp.owner hp.before (.plain_append hlead hmember)
  have h := entries_block (isHeader_typeHeader blank_nil p.kind hp.owner) hbody none []
  rw [chunkEntries_type rfl p.kind hp.owner, entries_text_append hp.owner hp.before,
    entries_of_header (t := []) rfl, List.append_nil] at h
  simpa [MemberPlace.text] using h

section Annotation

variable {p : MemberPlace} (hp : p.WellFormed) {name args : Text} (hname : IsAnnotationName name)
  (hargs : IsArguments args)

include hname hargs

theorem all_isPlain_annotationText : (annotationText name args ++ [' ']).all isPlain = true := by
  have hplain : name.all isPlain = true := all_isPlain (by decide) hname.chars
  simp [annotationText, hplain, hargs.chars, show isPlain '@' = true by decide,
    show isPlain '(' = true by decide, show isPlain ')' = true by decide,
    show isPlain ' ' = true by decide]

include hp

theorem entries_text_readable (hread : Readable name args) :
    entries none (p.text (annotationText name args ++ [' '])) = entries none (p.text []) := by
  have hgap := hp.before.lastGap
  have hblank : blank (p.before.lastGap ++ "  ".toList) = true := by
    rw [blank_append, hgap]
    decide
  have hannotated := entries_readable hgap hname hargs hread (some p.owner)
    (p.member.text p.owner ++ p.after.text p.owner)
  have hpadded := entries_member hblank hp.member hp.owner (p.after.text p.owner)
  have hbare := entries_member hgap hp.member hp.owner (p.after.text p.owner)
  rw [hp.entries_text (all_isPlain_annotationText hname hargs), hp.entries_text List.all_nil]
  simp only [List.append_assoc, List.nil_append, List.singleton_append] at hannotated hpadded hbare ⊢
  rw [hannotated, hpadded, hbare]

theorem entries_text_unreadable (hread : ¬ Readable name args) :
    entries none (p.text (annotationText name args ++ [' '])) = p.others := by
  obtain ⟨c, hnext⟩ := exists_nextChunk?_member hp.owner hp.member (p.after.text p.owner)
  have hspaced := nextChunk?_of_isHeader (isHeader_of_all (s := [' ']) (by decide))
    (p.member.text p.owner ++ p.after.text p.owner)
  rw [hnext, Option.map_some] at hspaced
  have hlost := entries_unreadable hp.before.lastGap hname hargs hread (some p.owner) hspaced
  rw [hp.entries_text (all_isPlain_annotationText hname hargs)]
  simp only [List.append_assoc] at hlost ⊢
  rw [hlost, entries_text hp.owner hp.after]
  rfl

omit hp hargs in
/-- There is no comment in an annotation unless there is one in its arguments. -/
theorem strip_annotationText (hblock : ¬ "/*".toList <:+: args) (hline : ¬ "//".toList <:+: args)
    {s t : Text} (hblock' : ¬ "/*".toList <:+: s ++ t) (hline' : ¬ "//".toList <:+: s ++ t) :
    CommentStyle.slashes.strip (s ++ (annotationText name args ++ ' ' :: t)) =
      s ++ (annotationText name args ++ ' ' :: t) := by
  have hs : s <:+: s ++ t := (List.prefix_append s t).isInfix
  have ht : t <:+: s ++ t := (List.suffix_append s t).isInfix
  have hfree : '/' ∉ name ++ ['('] := by
    simp [not_mem_of_all (x := '/') hname.chars (by decide)]
  have hrest : CommentStyle.slashes.strip (' ' :: t) = ' ' :: t := by
    rw [CommentStyle.strip_slashes_cons (by decide),
      CommentStyle.strip_slashes_eq_self (mt (·.trans ht) hblock') (mt (·.trans ht) hline')]
  have harguments := CommentStyle.strip_slashes_append_cons hblock hline (c := ')') (by decide)
    (by decide) (' ' :: t)
  have hdotted := CommentStyle.strip_slashes_append_of_not_mem hfree (args ++ ')' :: ' ' :: t)
  have hsign := CommentStyle.strip_slashes_append_cons (mt (·.trans hs) hblock')
    (mt (·.trans hs) hline') (c := '@') (by decide) (by decide) (name ++ '(' :: (args ++ ')' :: ' ' :: t))
  rw [List.append_assoc, List.singleton_append, List.append_assoc, List.singleton_append] at hdotted
  rw [hdotted, harguments, hrest] at hsign
  simpa [annotationText] using hsign

/-- An annotation in front of a member of a type changes nothing if it is read as a whole. If it is not,
    the type is read as though the member were not there. -/
theorem extract_annotated (hblock : ¬ "/*".toList <:+: args) (hline : ¬ "//".toList <:+: args)
    (hblock' : ¬ "/*".toList <:+: p.text []) (hline' : ¬ "//".toList <:+: p.text []) :
    (Readable name args → Language.java.extract (p.text (annotationText name args ++ [' '])) =
        Language.java.extract (p.text [])) ∧
      (¬ Readable name args → Language.java.fragments (p.text (annotationText name args ++ [' '])) =
        distinct (p.others.map Entry.fragment)) := by
  have hstrip : CommentStyle.slashes.strip (p.text (annotationText name args ++ [' '])) =
      p.text (annotationText name args ++ [' ']) := by
    rw [p.text_eq, List.nil_append] at hblock' hline'
    rw [p.text_eq, List.append_assoc (annotationText name args)]
    exact strip_annotationText hname hblock hline hblock' hline'
  have hfragments : Language.java.fragments (p.text (annotationText name args ++ [' '])) =
      distinct ((entries none (p.text (annotationText name args ++ [' ']))).map Entry.fragment) := by
    rw [Language.fragments, fragments, hstrip]
  refine ⟨fun hread => ?_, fun hread => ?_⟩
  · have hbare : Language.java.fragments (p.text []) =
        distinct ((entries none (p.text [])).map Entry.fragment) := by
      rw [Language.fragments, fragments, CommentStyle.strip_slashes_eq_self hblock' hline']
    rw [entries_text_readable hp hname hargs hread, ← hbare] at hfragments
    rw [Language.extract, Language.extract, extractWith, extractWith, hfragments, p.blank_text,
      p.blank_text]
  · rw [hfragments, entries_text_unreadable hp hname hargs hread]

end Annotation

/-- A class with a method between its constructor and a method without body. -/
def callPlace : MemberPlace where
  kind := .ofClass
  owner := "C".toList
  before :=
    .member " ".toList (.field "int".toList "n".toList none) <|
    .member " ".toList (.constructor "".toList " ".toList) <|
    .nil "\n ".toList
  member := .method "int".toList "m".toList "int a".toList (some " ".toList)
  after := .member " ".toList (.method "void".toList "p".toList "".toList none) (.nil " ".toList)

theorem callPlace_wellFormed : callPlace.WellFormed := by
  have hspace : Body " ".toList := .plain_append (s := " ".toList) (by decide) .nil
  have hint : IsResult "int".toList :=
    ⟨by decide, by decide, by decide, by decide, by decide +kernel⟩
  have hvoid : IsResult "void".toList :=
    ⟨by decide, by decide, by decide, by decide, by decide +kernel⟩
  refine ⟨by decide, ⟨by decide, ⟨by decide, by decide, by simp⟩, by decide,
    ⟨⟨by decide, by decide, by decide⟩, hspace⟩, rfl⟩,
    ⟨hint, by decide, ⟨by decide, by decide, by decide⟩, ?_⟩,
    ⟨by decide, ⟨hvoid, by decide, ⟨by decide, by decide, by decide⟩, by simp⟩, rfl⟩⟩
  rintro b ⟨⟩
  exact hspace

/-- Calls side by side in the arguments are within reach, a call in a call is not. -/
theorem extract_annotated_callPlace :
    callPlace.WellFormed ∧ Readable "a.B".toList "f(1), g(2)".toList ∧
      ¬ Readable "a.B".toList "f(g(x))".toList ∧
      Language.java.extract (callPlace.text (annotationText "a.B".toList "f(1), g(2)".toList ++ [' '])) =
        Language.java.extract (callPlace.text []) ∧
      Language.java.fragments (callPlace.text (annotationText "a.B".toList "f(g(x))".toList ++ [' '])) =
        ["class C".toList, "C() @class:C".toList, "void p() @class:C".toList] := by
  have hname : IsAnnotationName "a.B".toList := ⟨by decide, by decide⟩
  have hread : Readable "a.B".toList "f(1), g(2)".toList := by decide
  have hdeep : ¬ Readable "a.B".toList "f(g(x))".toList := by decide
  have hblock : ¬ "/*".toList <:+: callPlace.text [] := by decide +kernel
  have hline : ¬ "//".toList <:+: callPlace.text [] := by decide +kernel
  have hflat : IsArguments "f(1), g(2)".toList := ⟨by decide, by decide⟩
  have hnested : IsArguments "f(g(x))".toList := ⟨by decide, by decide⟩
  have hwhole := extract_annotated callPlace_wellFormed hname hflat (by decide +kernel)
    (by decide +kernel) hblock hline
  have hpart := extract_annotated callPlace_wellFormed hname hnested (by decide +kernel)
    (by decide +kernel) hblock hline
  exact ⟨callPlace_wellFormed, hread, hdeep, hwhole.1 hread, (hpart.2 hdeep).trans (by decide +kernel)⟩

/-- A method is lost behind a call in a call. -/
theorem extract_deepAnnotation :
    IsArguments "f(g(x))".toList ∧ annotationText "A".toList "f(g(x))".toList = "@A(f(g(x)))".toList ∧
      (Language.java.extract "class C \x7b int m(int a) \x7b \x7d \x7d".toList).map (·.name) =
        ["C".toList, "m".toList] ∧
      (Language.java.extract "class C \x7b @A(f(g(x))) int m(int a) \x7b \x7d \x7d".toList).map (·.name) =
        ["C".toList] :=
  ⟨⟨by decide, by decide⟩, by decide, by decide +kernel, by decide +kernel⟩

end Synopsis.Java
