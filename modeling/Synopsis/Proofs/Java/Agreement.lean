import Synopsis.Language
import Synopsis.Proofs.Java.Chunk
import Synopsis.Proofs.Java.Header

/-!
# Java: what is located is what is read back

A member is written with its owner at its end, and the reader takes the last word before the
parameters as its name. Every located entry can be told apart from what is written around its parts
(`Entry.WellFormed`), but for one ambiguity: types are written as `class` and a name, so a member
whose return type begins with that word is taken for a type. All others are read back as located
(`signature_fragment`).
-/

namespace Synopsis.Java

open Text

/-- The bodies in a text: the text itself, which has no owner, and the block of every type that a body
    declares. -/
inductive Within (t : Text) : Option Text → Text → Prop
  | whole : Within t none t
  | nested {owner : Option Text} {b header body name : Text} : Within t owner b →
      .block header body ∈ chunks b → typeName? header = some name → Within t (some name) body

/-- A header in the body of a type that declares no type itself. -/
inductive Candidate (t : Text) : Text → Text → Prop
  | statement {owner b header : Text} : Within t (some owner) b → .statement header ∈ chunks b →
      Candidate t owner header
  | block {owner b header body : Text} : Within t (some owner) b → .block header body ∈ chunks b →
      typeName? header = none → Candidate t owner header

/-- What stands before the parameters in a header. -/
def memberHead (header : Text) : Text := before '(' (trim (stripAnnotations header))

/-- A header from its parameters on. -/
def memberRest (header : Text) : Text :=
  (trim (stripAnnotations header)).drop (memberHead header).length

/-- `Located t f s`: a type or a member of one stands in `t`, `f` is what is written of it and `s` is
    what it says. -/
inductive Located (t : Text) : Text → Signature → Prop
  | type {name body : Text} : Within t (some name) body →
      Located t (Entry.fragment (.type name)) { name }
  | member {owner header lead name params tail : Text} : Candidate t owner header →
      (member? owner header).isSome = true → splitName? (memberHead header) = some (lead, name) →
      group? (memberRest header) = some (params, tail) →
      Located t
        (Entry.fragment (.member (nonempty? (collapse (skipModifiers lead))) name (collapse params) owner))
        { name
          parameters := parameters (collapse params)
          returnType := nonempty? (collapse (skipModifiers lead))
          className := some owner }

/-- What a located entry says. -/
def Entry.signature : Entry → Signature
  | .type name => { name }
  | .member returnType name params owner =>
    { name, returnType, className := some owner, parameters := Java.parameters params }

/-- The return type begins with the word that types are written with. -/
def OpensWithClass (s : Signature) : Prop :=
  ∃ r ∈ s.returnType, (words r).head? = some "class".toList

instance : DecidablePred OpensWithClass := fun s =>
  inferInstanceAs (Decidable (∃ r ∈ s.returnType, (words r).head? = some "class".toList))

/-- A return type as it is written: on one line, of the characters of types. -/
structure IsTypeText (r : Text) : Prop where
  ne_nil : r ≠ []
  collapsed : collapse r = r
  chars : r.all isTypeChar = true

/-- An entry that can be told apart from what is written around its parts. -/
inductive Entry.WellFormed : Entry → Prop
  | type {name : Text} : isDollarName name = true → WellFormed (.type name)
  | member {returnType : Option Text} {name params owner : Text} :
      (∀ r ∈ returnType, IsTypeText r) → isDollarName name = true → Grouped params [] →
      isDollarName owner = true → WellFormed (.member returnType name params owner)

theorem IsTypeText.trimmed {r : Text} (h : IsTypeText r) : trim r = r := by
  rw [← h.collapsed, trim_collapse]

/-! ## Names -/

theorem isDollarName_of_splitName? {t lead name : Text} (h : splitName? t = some (lead, name)) :
    isDollarName name = true := by
  simp only [splitName?] at h
  split at h
  · cases h
  · next hne =>
    obtain ⟨-, rfl⟩ := Prod.mk.inj (Option.some.inj h)
    have hall := all_takeTrailing isDollarWord (trimEnd t)
    cases hname : (takeTrailing isDollarWord (trimEnd t)).dropWhile (!isDollarStart ·) with
    | nil => exact absurd (by rw [hname]; rfl) hne
    | cons c name =>
      have hstart : (!isDollarStart c) = false :=
        not_of_head?_dropWhile (p := (!isDollarStart ·)) (by rw [hname]; rfl)
      rw [Bool.not_eq_eq_eq_not, Bool.not_false] at hstart
      have hsuffix := List.dropWhile_suffix (!isDollarStart ·)
        (l := takeTrailing isDollarWord (trimEnd t))
      rw [hname] at hsuffix
      refine Bool.and_eq_true_iff.2 ⟨hstart, List.all_eq_true.2 fun x hx => ?_⟩
      exact List.all_eq_true.1 hall x (hsuffix.subset (List.mem_cons_of_mem c hx))

theorem isDollarName_of_typeName? {header name : Text} (h : typeName? header = some name) :
    isDollarName name = true := by
  simp only [typeName?] at h
  split at h
  · cases h
  · obtain ⟨s, hs, rfl⟩ := Option.map_eq_some_iff.1 h
    obtain ⟨a, b, -, -, hread⟩ := exists_cut_of_mem_sites (List.mem_of_mem_head? hs)
    rw [typeAt?] at hread
    split at hread
    · obtain ⟨t, -, hname⟩ := Option.bind_eq_some_iff.1 hread
      exact isDollarName_of_dollarName? hname
    · cases hread

/-! ## Located entries are well formed -/

theorem member?_eq_some {owner header : Text} {e : Entry} (h : member? owner header = some e) :
    ∃ lead name params tail, splitName? (memberHead header) = some (lead, name) ∧
      group? (memberRest header) = some (params, tail) ∧
      (collapse (skipModifiers lead)).all isTypeChar = true ∧
      e = .member (nonempty? (collapse (skipModifiers lead))) name (collapse params) owner := by
  simp only [member?] at h
  split at h
  · cases h
  · obtain ⟨⟨params, tail⟩, hgroup, h⟩ := Option.bind_eq_some_iff.1 h
    simp only at h
    split at h
    · cases h
    · obtain ⟨⟨lead, name⟩, hsplit, h⟩ := Option.bind_eq_some_iff.1 h
      refine ⟨lead, name, params, tail, hsplit, hgroup, ?_⟩
      simp only at h
      split at h
      · next hempty =>
        split at h
        · obtain rfl := Option.some.inj h
          rw [nonempty?, if_pos hempty, List.isEmpty_iff.1 hempty]
          exact ⟨rfl, rfl⟩
        · cases h
      · next hne =>
        split at h
        · next hchars =>
          obtain rfl := Option.some.inj h
          rw [nonempty?, if_neg hne]
          exact ⟨hchars, rfl⟩
        · cases h

theorem wellFormed_of_member? {owner header : Text} {e : Entry} (howner : isDollarName owner = true)
    (h : member? owner header = some e) : e.WellFormed := by
  obtain ⟨lead, name, params, tail, hsplit, hgroup, hchars, rfl⟩ := member?_eq_some h
  refine .member (fun r hr => ?_) (isDollarName_of_splitName? hsplit)
    ((group?_eq_some_iff.1 hgroup).2.collapse fun _ => rfl) howner
  obtain ⟨hne, rfl⟩ := nonempty?_eq_some.1 hr
  exact ⟨hne, collapse_collapse _, hchars⟩

/-- What a body yields is yielded by the text around it. -/
theorem Within.entries_subset {t b : Text} {owner : Option Text} (h : Within t owner b) :
    entries owner b ⊆ entries none t := by
  induction h with
  | whole => exact List.Subset.refl _
  | nested _ hc hname ih =>
    intro e he
    refine ih ?_
    rw [entries_eq_flatMap]
    refine List.mem_flatMap.2 ⟨_, hc, ?_⟩
    simp only [chunkEntries, hname]
    exact List.mem_cons_of_mem _ he

/-- What a chunk of a body declares is declared by the text around the body. -/
theorem Within.mem_entries {t b : Text} {owner : Option Text} {c : Chunk} {e : Entry}
    (h : Within t owner b) (hc : c ∈ chunks b) (he : e ∈ chunkEntries owner c) : e ∈ entries none t := by
  refine h.entries_subset ?_
  rw [entries_eq_flatMap]
  exact List.mem_flatMap.2 ⟨c, hc, he⟩

theorem Within.isDollarName {t b name : Text} (h : Within t (some name) b) :
    isDollarName name = true := by
  cases h with
  | nested _ _ hname => exact isDollarName_of_typeName? hname

/-- Every entry of a body is the type around a body in it, or declared by a header there. -/
theorem Within.declared {t b : Text} {owner : Option Text} {e : Entry} (h : Within t owner b)
    (he : e ∈ entries owner b) : (∃ name body, Within t (some name) body ∧ e = .type name) ∨
      ∃ o header, Candidate t o header ∧ member? o header = some e := by
  rw [entries_eq_flatMap] at he
  obtain ⟨c, hc, he⟩ := List.mem_flatMap.1 he
  cases c with
  | statement header =>
    obtain ⟨o, rfl, hm⟩ := Option.bind_eq_some_iff.1 (Option.mem_toList.1 he)
    exact .inr ⟨o, header, .statement h hc, hm⟩
  | block header body =>
    simp only [chunkEntries] at he
    split at he
    · next name hname =>
      have hbody : Within t (some name) body := .nested h hc hname
      rcases List.mem_cons.1 he with rfl | he
      · exact .inl ⟨name, body, hbody, rfl⟩
      · have hlt := length_lt_of_mem_chunks hc
        exact hbody.declared he
    · next hname =>
      obtain ⟨o, rfl, hm⟩ := Option.bind_eq_some_iff.1 (Option.mem_toList.1 he)
      exact .inr ⟨o, header, .block h hc hname, hm⟩
termination_by b.length

theorem mem_entries_iff {t : Text} {e : Entry} : e ∈ entries none t ↔
    (∃ name body, Within t (some name) body ∧ e = .type name) ∨
      ∃ owner header, Candidate t owner header ∧ member? owner header = some e := by
  refine ⟨Within.whole.declared, ?_⟩
  rintro (⟨name, body, hbody, rfl⟩ | ⟨owner, header, hcandidate, hm⟩)
  · cases hbody with
    | nested h hc hname =>
      refine h.mem_entries hc ?_
      simp only [chunkEntries, hname]
      exact List.mem_cons_self
  · cases hcandidate with
    | statement h hc => exact h.mem_entries hc (Option.mem_toList.2 hm)
    | block h hc hname =>
      refine h.mem_entries hc ?_
      simp only [chunkEntries, hname]
      exact Option.mem_toList.2 hm

theorem wellFormed_of_mem_entries {t : Text} {e : Entry} (h : e ∈ entries none t) : e.WellFormed := by
  rcases mem_entries_iff.1 h with ⟨name, body, hbody, rfl⟩ | ⟨owner, header, hcandidate, hm⟩
  · exact .type hbody.isDollarName
  · cases hcandidate with
    | statement hbody _ => exact wellFormed_of_member? hbody.isDollarName hm
    | block hbody _ _ => exact wellFormed_of_member? hbody.isDollarName hm

/-! ## Owner markers -/

theorem ownerAt?_eq_some {p : Place} {found : Text × Text} (h : ownerAt? p = some found) :
    ∃ run g, p.rest = "@class:".toList ++ (run ++ g) ∧ run.all isDollarWord = true ∧
      blank g = true := by
  rw [ownerAt?] at h
  obtain ⟨t, ht, h⟩ := Option.bind_eq_some_iff.1 h
  obtain ⟨⟨run, g⟩, hrun, h⟩ := Option.bind_eq_some_iff.1 h
  simp only at h
  split at h
  · next hg =>
    obtain ⟨rfl, -, hall, -⟩ := eq_append_of_run? hrun
    exact ⟨run, g, after?_eq_some.1 ht, hall, hg⟩
  · cases h

/-- The marker at the end of a fragment is the first one in it: one that starts before would hold the
    sign that the other starts with. -/
theorem splitOwner_marker {t owner : Text} (ht : trim t = t) (howner : isDollarName owner = true) :
    splitOwner (t ++ ' ' :: ("@class:".toList ++ owner)) = (t, some owner) := by
  have hnone (a₁ a₂ : Text) (hne : a₂ ≠ []) (_ : t ++ [' '] = a₁ ++ a₂) :
      ownerAt? (.between a₁ (a₂ ++ ("@class:".toList ++ owner))) = none := by
    cases h : ownerAt? (.between a₁ (a₂ ++ ("@class:".toList ++ owner))) with
    | none => rfl
    | some found =>
      obtain ⟨run, g, hrest, hrun, hg⟩ := ownerAt?_eq_some h
      obtain ⟨c, u, rfl⟩ := List.exists_cons_of_ne_nil hne
      obtain ⟨-, htail⟩ : c = '@' ∧ u ++ ("@class:".toList ++ owner) =
        "class:".toList ++ (run ++ g) := List.cons.inj hrest
      have hsign : '@' ∈ u ++ ("@class:".toList ++ owner) :=
        List.mem_append_right u (List.mem_append_left owner (by decide))
      rw [htail, List.mem_append, List.mem_append] at hsign
      rcases hsign with hsign | hsign | hsign
      · exact absurd hsign (by decide)
      · exact absurd hsign (not_mem_of_all hrun rfl)
      · exact absurd hsign (not_mem_of_all hg rfl)
  have hread : ownerAt? (.between (t ++ [' ']) ("@class:".toList ++ owner)) = some (owner, []) := by
    obtain ⟨hne, hall⟩ := all_isDollarWord howner
    have hrun := run?_append hne hall (t := []) rfl
    rw [List.append_nil] at hrun
    have hrest : (Place.between (t ++ [' ']) ("@class:".toList ++ owner)).rest =
        "@class:".toList ++ owner := rfl
    rw [ownerAt?, hrest, after?_append]
    simp only [Option.bind_eq_bind, Option.bind_some, hrun]
    rfl
  have hne : "@class:".toList ++ owner ≠ [] :=
    List.append_ne_nil_of_left_ne_nil (by decide) owner
  have hfirst := firstSite?_append hne hnone hread
  have htake : trim (t ++ [' ']) = t := (trim_concat_of_blank isBlank_space t).trans ht
  rw [splitOwner, List.append_cons, hfirst]
  simp only [List.take_left, htake]

/-! ## Reading a written entry -/

/-- A member up to its parameters. -/
def writtenHead (returnType : Option Text) (name : Text) : Text :=
  (returnType.map (· ++ [' '])).getD [] ++ name

section Member

variable {returnType : Option Text} {name params owner : Text}

theorem writtenHead_some (r name : Text) : writtenHead (some r) name = r ++ ' ' :: name := by
  rw [writtenHead, Option.map_some, Option.getD_some, List.append_assoc, List.singleton_append]

theorem fragment_member (returnType : Option Text) (name params owner : Text) :
    (Entry.member returnType name params owner).fragment =
      (writtenHead returnType name ++ '(' :: (params ++ [')'])) ++
        ' ' :: ("@class:".toList ++ owner) := by
  have hfragment : (Entry.member returnType name params owner).fragment =
      writtenHead returnType name ++ '(' :: params ++ ") @class:".toList ++ owner := rfl
  have hmarker : ") @class:".toList = ')' :: ' ' :: "@class:".toList := rfl
  rw [hfragment, hmarker]
  simp only [List.append_assoc, List.cons_append, List.nil_append]

theorem head?_writtenHead (hreturn : ∀ r ∈ returnType, IsTypeText r)
    (hname : isDollarName name = true) (t : Text) :
    ((writtenHead returnType name ++ t).head?).any isBlank = false := by
  cases returnType with
  | none =>
    obtain ⟨c, u, rfl⟩ := List.exists_cons_of_ne_nil (all_isDollarWord hname).1
    exact solid_of_isDollarName hname c List.mem_cons_self
  | some r =>
    have hr := hreturn r rfl
    obtain ⟨c, u, rfl⟩ := List.exists_cons_of_ne_nil hr.ne_nil
    exact (trim_eq_self_iff.1 hr.trimmed).1

theorem trim_writtenHead_append (hreturn : ∀ r ∈ returnType, IsTypeText r)
    (hname : isDollarName name = true) {u : Text} (hne : u ≠ []) (hu : trim u = u) (t : Text) :
    trim (writtenHead returnType name ++ (t ++ u)) = writtenHead returnType name ++ (t ++ u) := by
  rw [trim, trimStart_eq_self (head?_writtenHead hreturn hname _), ← List.append_assoc]
  exact trimEnd_append_of_trim hne hu _

theorem trim_writtenHead (hreturn : ∀ r ∈ returnType, IsTypeText r)
    (hname : isDollarName name = true) :
    trim (writtenHead returnType name) = writtenHead returnType name := by
  have hstart := head?_writtenHead hreturn hname []
  rw [List.append_nil] at hstart
  rw [trim, trimStart_eq_self hstart]
  exact trimEnd_append_of_trim (all_isDollarWord hname).1 (trim_of_isDollarName hname) _

theorem trim_member (hreturn : ∀ r ∈ returnType, IsTypeText r) (hname : isDollarName name = true)
    (howner : isDollarName owner = true) :
    trim (Entry.member returnType name params owner).fragment =
      (Entry.member returnType name params owner).fragment := by
  have hfragment : (Entry.member returnType name params owner).fragment =
      writtenHead returnType name ++ (('(' :: (params ++ [')']) ++ ' ' :: "@class:".toList) ++ owner) := by
    rw [fragment_member]
    simp only [List.append_assoc, List.cons_append]
  rw [hfragment]
  exact trim_writtenHead_append hreturn hname (all_isDollarWord howner).1
    (trim_of_isDollarName howner) _

theorem lastWord?_writtenHead (hreturn : ∀ r ∈ returnType, IsTypeText r)
    (hname : isDollarName name = true) :
    lastWord? (writtenHead returnType name) = some (returnType, name) := by
  have hsolid := solid_of_isDollarName hname
  have hne := (all_isDollarWord hname).1
  cases returnType with
  | none => exact lastWord?_of_solid hne hsolid
  | some r =>
    rw [writtenHead_some]
    exact lastWord?_append (hreturn r rfl).ne_nil (hreturn r rfl).trimmed hne hsolid

theorem open_not_mem_writtenHead (hreturn : ∀ r ∈ returnType, IsTypeText r)
    (hname : isDollarName name = true) : '(' ∉ writtenHead returnType name := by
  have hopen : '(' ∉ name := not_mem_of_all (all_isDollarWord hname).2 rfl
  cases returnType with
  | none => exact hopen
  | some r =>
    rw [writtenHead_some, List.mem_append, List.mem_cons]
    rintro (h | h | h)
    · exact not_mem_of_all (hreturn r rfl).chars rfl h
    · exact absurd h (by decide)
    · exact hopen h

/-- A written member is no written type, unless its return type begins with `class`. -/
theorem after?_class_writtenHead (hreturn : ∀ r ∈ returnType, IsTypeText r)
    (hname : isDollarName name = true)
    (hclass : ∀ r ∈ returnType, (words r).head? ≠ some "class".toList) (t : Text) :
    after? "class ".toList (writtenHead returnType name ++ '(' :: t) = none := by
  cases h : after? "class ".toList (writtenHead returnType name ++ '(' :: t) with
  | none => rfl
  | some u =>
    have hwritten : writtenHead returnType name ++ '(' :: t = "class".toList ++ ' ' :: u :=
      (after?_eq_some.1 h).trans rfl
    cases returnType with
    | none =>
      -- The name of a constructor ends at the parenthesis, the word `class` at a space.
      have hparen := (takeWhile_append_of_all (all_isDollarWord hname).2 (t := '(' :: t) rfl).2
      have hspace := (takeWhile_append_of_all (p := isDollarWord) (r := "class".toList)
        (t := ' ' :: u) (by decide) rfl).2
      rw [← hwritten, show writtenHead none name = name from rfl, hparen] at hspace
      exact absurd (List.cons.inj hspace).1 (by decide)
    | some r =>
      -- Both sides have the same first word.
      have hr := hreturn r rfl
      have hblank := blank_eq_false_of_getLast? hr.ne_nil (trim_eq_self_iff.1 hr.trimmed).2
      have hwords : words r ++ words (name ++ '(' :: t) = "class".toList :: words u := by
        have hsplit := congrArg words hwritten
        rw [writtenHead_some, List.append_assoc, List.cons_append,
          words_append_cons_of_blank isBlank_space, words_append_cons_of_blank isBlank_space,
          words_of_solid (t := "class".toList) (by decide) (not_of_any_eq_false (by decide))] at hsplit
        exact hsplit
      obtain ⟨w, ws, hw⟩ := List.exists_cons_of_ne_nil (words_ne_nil hblank)
      rw [hw] at hwords
      refine absurd ?_ (hclass r rfl)
      rw [hw, (List.cons.inj hwords).1]
      rfl

end Member

theorem trim_type {name : Text} (hname : isDollarName name = true) :
    trim ("class ".toList ++ name) = "class ".toList ++ name := by
  rw [trim, trimStart_eq_self (t := "class ".toList ++ name) rfl]
  exact trimEnd_append_of_trim (all_isDollarWord hname).1 (trim_of_isDollarName hname) _

theorem signature_type {name : Text} (hname : isDollarName name = true) :
    signature ("class ".toList ++ name) = .ok { name } := by
  rw [signature, trim_type hname, after?_append]
  simp only [trim_of_isDollarName hname, hname]
  rfl

/-- A well-formed entry is read back as what it says, unless it is a member that would be taken for a
    type. -/
theorem signature_fragment {e : Entry} (hw : e.WellFormed) (hclass : ¬ OpensWithClass e.signature) :
    signature e.fragment = .ok e.signature := by
  cases hw with
  | type hname => exact signature_type hname
  | @member returnType name params owner hreturn hname hparams howner =>
    have hwords (r : Text) (hr : r ∈ returnType) : (words r).head? ≠ some "class".toList :=
      fun h => hclass ⟨r, hr, h⟩
    have htype : after? "class ".toList (Entry.member returnType name params owner).fragment = none := by
      rw [fragment_member, List.append_assoc]
      exact after?_class_writtenHead hreturn hname hwords _
    have hheader : trim (writtenHead returnType name ++ '(' :: (params ++ [')'])) =
        writtenHead returnType name ++ '(' :: (params ++ [')']) :=
      trim_writtenHead_append hreturn hname (List.cons_ne_nil ')' []) rfl ('(' :: params)
    have hclose : group? ('(' :: (params ++ [')'])) = some (params, []) := group?_of_grouped hparams
    rw [signature, trim_member hreturn hname howner, htype, fragment_member]
    simp only [splitOwner_marker hheader howner, cutAt?_append (open_not_mem_writtenHead hreturn hname),
      List.drop_left, hclose, trim_writtenHead hreturn hname, lastWord?_writtenHead hreturn hname, hname]
    rfl

theorem exists_of_opensWithClass {r : Text} (hr : IsTypeText r)
    (hclass : (words r).head? = some "class".toList) (t : Text) :
    ∃ u, r ++ ' ' :: t = "class ".toList ++ (u ++ t) := by
  obtain ⟨ws, hws⟩ := List.head?_eq_some_iff.1 hclass
  have hjoin : r = join " " (words r) := hr.collapsed.symm
  rw [hws] at hjoin
  cases ws with
  | nil =>
    rw [join_singleton] at hjoin
    exact ⟨[], by rw [hjoin]; rfl⟩
  | cons w ws =>
    rw [join_cons_cons] at hjoin
    refine ⟨join " " (w :: ws) ++ [' '], ?_⟩
    rw [hjoin]
    simp only [List.append_assoc, List.cons_append, List.nil_append]
    rfl

/-- A member that is taken for a type is rejected: its parameters are in no name. -/
theorem signature_of_opensWithClass {e : Entry} (hw : e.WellFormed) (hclass : OpensWithClass e.signature) :
    signature e.fragment = .error .badTypeName := by
  obtain ⟨r, hr, hword⟩ := hclass
  cases hw with
  | type => cases hr
  | @member returnType name params owner hreturn hname hparams howner =>
    obtain rfl := Option.mem_def.1 hr
    have hfragment : (Entry.member (some r) name params owner).fragment = r ++
        ' ' :: (name ++ '(' :: (params ++ ')' :: ' ' :: ("@class:".toList ++ owner))) := by
      rw [fragment_member, writtenHead_some]
      simp only [List.append_assoc, List.cons_append, List.nil_append]
    obtain ⟨u, hu⟩ := exists_of_opensWithClass (hreturn r rfl) hword
      (name ++ '(' :: (params ++ ')' :: ' ' :: ("@class:".toList ++ owner)))
    rw [hu, ← List.append_assoc u] at hfragment
    have hrejected : isDollarName (trim (u ++ name ++
        '(' :: (params ++ ')' :: ' ' :: ("@class:".toList ++ owner)))) = false := by
      rw [trim_append_cons (by decide), Bool.eq_false_iff]
      intro hname
      refine not_mem_of_all (x := '(') (all_isDollarWord hname).2 rfl ?_
      exact List.mem_append_right _ List.mem_cons_self
    rw [signature, trim_member hreturn hname howner, hfragment, after?_append]
    simp only [hrejected]
    rfl

/-! ## Sources -/

theorem trim_fragment {e : Entry} (hw : e.WellFormed) : trim e.fragment = e.fragment := by
  cases hw with
  | type hname => exact trim_type hname
  | member hreturn hname _ howner => exact trim_member hreturn hname howner

theorem fragment_ne_nil (e : Entry) : e.fragment ≠ [] := by
  cases e with
  | type name => exact List.cons_ne_nil _ _
  | member returnType name params owner =>
    rw [fragment_member]
    exact List.append_ne_nil_of_right_ne_nil _ (List.cons_ne_nil _ _)

theorem located_iff {t f : Text} {s : Signature} :
    Located t f s ↔ ∃ e ∈ entries none t, f = e.fragment ∧ s = e.signature := by
  constructor
  · intro h
    cases h with
    | type hbody => exact ⟨_, mem_entries_iff.2 (.inl ⟨_, _, hbody, rfl⟩), rfl, rfl⟩
    | member hcandidate hsome hsplit hgroup =>
      obtain ⟨e, he⟩ := Option.isSome_iff_exists.1 hsome
      refine ⟨e, mem_entries_iff.2 (.inr ⟨_, _, hcandidate, he⟩), ?_⟩
      obtain ⟨lead', name', params', tail', hsplit', hgroup', -, rfl⟩ := member?_eq_some he
      obtain ⟨rfl, rfl⟩ := Prod.mk.inj (Option.some.inj (hsplit.symm.trans hsplit'))
      obtain ⟨rfl, rfl⟩ := Prod.mk.inj (Option.some.inj (hgroup.symm.trans hgroup'))
      exact ⟨rfl, rfl⟩
  · rintro ⟨e, he, rfl, rfl⟩
    rcases mem_entries_iff.1 he with ⟨name, body, hbody, rfl⟩ | ⟨owner, header, hcandidate, hm⟩
    · exact .type hbody
    · obtain ⟨lead, name, params, tail, hsplit, hgroup, -, rfl⟩ := member?_eq_some hm
      exact .member hcandidate (Option.isSome_of_eq_some hm) hsplit hgroup

/-- The fragments of a source are its entries. -/
theorem mem_fragments_iff {source f : Text} : f ∈ fragments source ↔
    ∃ e ∈ entries none (CommentStyle.slashes.strip source), f = e.fragment :=
  mem_distinct_map fun e he => ⟨fragment_ne_nil e, trim_fragment (wellFormed_of_mem_entries he)⟩

/-- What is located in a source is written, and read back unless it would be taken for a type. -/
theorem read_located {source f : Text} {s : Signature}
    (h : Located (CommentStyle.slashes.strip source) f s) :
    f ∈ fragments source ∧ (¬ OpensWithClass s → signature f = .ok s) ∧
      (OpensWithClass s → signature f = .error .badTypeName) := by
  obtain ⟨e, he, rfl, rfl⟩ := located_iff.1 h
  have hw := wellFormed_of_mem_entries he
  exact ⟨mem_fragments_iff.2 ⟨e, he, rfl⟩, signature_fragment hw, signature_of_opensWithClass hw⟩

/-- Whatever is written of a source was located in it. -/
theorem located_of_mem_fragments {source f : Text} (h : f ∈ fragments source) :
    ∃ s, Located (CommentStyle.slashes.strip source) f s := by
  obtain ⟨e, he, rfl⟩ := mem_fragments_iff.1 h
  exact ⟨_, located_iff.2 ⟨e, he, rfl, rfl⟩⟩

end Synopsis.Java
