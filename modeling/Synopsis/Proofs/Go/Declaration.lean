import Synopsis.Language.GoSignature
import Synopsis.Proofs.Go.Window

/-!
# Go: declarations and how they are written

A declaration has an optional receiver, a name, optional type parameters, groups of parameters that
share a type, and a result. Its parameters are read back with the types of their groups
(`parameters_join`), and what is written before them has its brackets matched
(`Declaration.WellFormed.head`).
-/

namespace Synopsis.Go

open Text Brackets

/-! ## Declarations and how they are written -/

/-- The receiver of a method: its name, and its type behind any number of stars. -/
structure Receiver where
  name : Text
  stars : Nat
  package : Option Text
  type : Text
  arguments : Option Text
deriving DecidableEq, Repr

/-- Parameters that share a type: those before the last, and the last. -/
structure Group where
  earlier : List Text
  last : Text
  type : Text
deriving DecidableEq, Repr

/-- What a function returns: nothing, one type, or a list of types in parentheses. -/
inductive Result where
  | nothing
  | single (type : Text)
  | several (types : List Text)
deriving DecidableEq, Repr

/-- The declaration of a function or method. -/
structure Declaration where
  receiver : Option Receiver
  name : Text
  generics : Option Text
  groups : List Group
  result : Result
deriving DecidableEq, Repr

/-- Type arguments or parameters in their brackets. -/
def bracketed : Option Text → Text
  | none => []
  | some t => '[' :: t ++ [']']

/-- What is written of a receiver between its parentheses. -/
def Receiver.text (r : Receiver) : Text :=
  r.name ++ ' ' :: (List.replicate r.stars '*' ++ ((r.package.map (· ++ ['.'])).getD [] ++
    (r.type ++ bracketed r.arguments)))

/-- The names of a group, and then their type. -/
def Group.text (g : Group) : Text := join ", " (g.earlier ++ [g.last]) ++ ' ' :: g.type

/-- The result as it is written, if there is one. -/
def Result.text? : Result → Option Text
  | .nothing => none
  | .single type => some type
  | .several types => some ('(' :: join ", " types ++ [')'])

/-- What is written before the parameters. -/
def Declaration.head (d : Declaration) : Text :=
  (d.receiver.map fun r => '(' :: r.text ++ ") ".toList).getD [] ++ (d.name ++ bracketed d.generics)

/-- The parameters and the result. -/
def Declaration.tail (d : Declaration) : Text :=
  '(' :: (join ", " (d.groups.map Group.text) ++ ')' :: (d.result.text?.map (' ' :: ·)).getD [])

/-- A declaration with an empty body. -/
def Declaration.text (d : Declaration) : Text :=
  "func ".toList ++ (d.head ++ (d.tail ++ [' ', '{', '\n', '}', '\n']))

/-! ## What is declared -/

/-- The parameters of a group, in order. -/
def Group.parameters (g : Group) : List Parameter :=
  (g.earlier ++ [g.last]).map fun n => { name := n, type := some g.type }

/-- The signature that a declaration stands for. The type arguments of the receiver stand in for those
    of the method. -/
def Declaration.signature (d : Declaration) : Signature where
  name := d.name ++ bracketed (d.generics.or (d.receiver.bind Receiver.arguments))
  parameters := d.groups.flatMap Group.parameters
  returnType := d.result.text?
  className := d.receiver.map Receiver.type

/-! ## Well-formed declarations -/

/-- A text in which parentheses and square brackets are matched, each kind for itself. -/
def Matched (t : Text) : Prop :=
  depthAfter '(' ')' 1 t = some 1 ∧ depthAfter '[' ']' 1 t = some 1

/-- What may be written between the brackets of type arguments and parameters. -/
structure IsArguments (t : Text) : Prop where
  ne_nil : t ≠ []
  trimmed : trim t = t
  chars : ∀ c ∈ t, c ≠ '\n' ∧ c ≠ '{'
  matched : Matched t

/-- What may be written as a type: on one line, well nested, without commas outside brackets. -/
structure IsType (t : Text) : Prop where
  ne_nil : t ≠ []
  collapsed : collapse t = t
  nested : Nested false t

/-- A receiver whose parts can be told apart. -/
structure Receiver.WellFormed (r : Receiver) : Prop where
  name : isName r.name = true
  package : ∀ p ∈ r.package, isName p = true
  type : isName r.type = true
  arguments : ∀ a ∈ r.arguments, IsArguments a

/-- A group of names with a type. -/
structure Group.WellFormed (g : Group) : Prop where
  names : ∀ n ∈ g.earlier ++ [g.last], isName n = true
  type : IsType g.type

/-- A single type is no list, and each brace in it outside parentheses follows the word of a braced
    type directly. -/
structure IsSingle (t : Text) : Prop where
  type : IsType t
  head : t.head? ≠ some '('
  braces : ∀ a b, t = a ++ '{' :: b → a.count '(' = a.count ')' → ∃ w ∈ bracedWords, EndsInWord w a

/-- A result whose parts can be told apart. -/
def Result.WellFormed : Result → Prop
  | .nothing => True
  | .single type => IsSingle type
  | .several types => types ≠ [] ∧ ∀ t ∈ types, IsType t

/-- A result at whose end the brace of a body is taken for the brace of a type. -/
def Result.Unfinished : Result → Prop
  | .single type => ∃ w ∈ bracedWords, EndsInWord w type
  | _ => False

instance : (r : Result) → Decidable r.Unfinished
  | .nothing => inferInstanceAs (Decidable False)
  | .single type => inferInstanceAs (Decidable (∃ w ∈ bracedWords, EndsInWord w type))
  | .several _ => inferInstanceAs (Decidable False)

/-- A declaration whose parts can be told apart. -/
structure Declaration.WellFormed (d : Declaration) : Prop where
  receiver : ∀ r ∈ d.receiver, r.WellFormed
  name : isName d.name = true
  generics : ∀ g ∈ d.generics, IsArguments g
  groups : ∀ g ∈ d.groups, g.WellFormed
  result : d.result.WellFormed

/-! ## Parameters -/

theorem nested_of_isName {commas : Bool} {n : Text} (h : isName n = true) : Nested commas n := by
  refine .of_all (fun c hc => ⟨isBracket_of_isWord hc, ?_⟩) (all_isWord_of_isName h)
  rintro rfl
  cases hc

theorem ne_nil_of_isName {n : Text} (h : isName n = true) : n ≠ [] := by
  rintro rfl
  cases h

theorem IsType.trimmed {t : Text} (h : IsType t) : trim t = t := by
  rw [← h.collapsed, trim_collapse]

theorem IsType.newline_not_mem {t : Text} (h : IsType t) : '\n' ∉ t := by
  rw [← h.collapsed]
  exact newline_not_mem_collapse t

/-- What stands between the commas of a group. -/
def Group.pieces (g : Group) : List Text := g.earlier ++ [g.last ++ ' ' :: g.type]

theorem Group.pieces_ne_nil (g : Group) : g.pieces ≠ [] := by
  simp [Group.pieces]

theorem Group.text_eq (g : Group) : g.text = join ", " g.pieces := by
  rw [Group.text, Group.pieces]
  cases he : g.earlier with
  | nil => rw [List.nil_append, List.nil_append, join_singleton, join_singleton]
  | cons n ns =>
    rw [join_append ", " (List.cons_ne_nil n ns) (List.cons_ne_nil _ []), join_singleton,
      join_append ", " (List.cons_ne_nil n ns) (List.cons_ne_nil _ []), join_singleton,
      List.append_assoc, List.append_assoc]

theorem join_map_text (gs : List Group) :
    join ", " (gs.map Group.text) = join ", " (gs.flatMap Group.pieces) := by
  induction gs with
  | nil => rfl
  | cons g gs ih =>
    rw [List.map_cons, List.flatMap_cons]
    cases gs with
    | nil => rw [List.map_nil, join_singleton, List.flatMap_nil, List.append_nil, g.text_eq]
    | cons k ks =>
      have hne : (k :: ks).flatMap Group.pieces ≠ [] := by
        rw [List.flatMap_cons]
        exact List.append_ne_nil_of_left_ne_nil k.pieces_ne_nil _
      rw [join_append ", " g.pieces_ne_nil hne, ← ih, List.map_cons, join_cons_cons, g.text_eq]

theorem nested_pieces {g : Group} (h : g.WellFormed) {p : Text} (hp : p ∈ g.pieces) :
    Nested false p ∧ p ≠ [] ∧ trim p = p := by
  rcases List.mem_append.1 hp with hp | hp
  · have hname := h.names p (List.mem_append_left _ hp)
    exact ⟨nested_of_isName hname, ne_nil_of_isName hname, trim_of_isName hname⟩
  · obtain rfl := List.mem_singleton.1 hp
    have hname := h.names g.last (by simp)
    refine ⟨(nested_of_isName hname).append (.plain (by decide) (by decide) h.type.nested), by simp, ?_⟩
    exact trim_around (ne_nil_of_isName hname) (trim_of_isName hname) h.type.ne_nil h.type.trimmed [' ']

theorem row_pieces_groups {gs : List Group} (h : ∀ g ∈ gs, g.WellFormed) :
    noAngle.Row (gs.flatMap Group.pieces) := by
  have hpiece (p : Text) (hp : p ∈ gs.flatMap Group.pieces) :
      Nested false p ∧ p ≠ [] ∧ trim p = p := by
    obtain ⟨g, hg, hp⟩ := List.mem_flatMap.1 hp
    exact nested_pieces (h g hg) hp
  constructor
  · intro p hp
    obtain ⟨hnested, hne, htrim⟩ := hpiece p hp
    exact hnested.isPiece hne htrim
  · intro p hp
    exact (hpiece p (List.dropLast_subset _ hp)).1.openAfter [] none

/-! ## Reading the pieces -/

theorem firstWord?_append {name t : Text} (hname : isName name = true)
    (ht : t.head?.all isBlank = true) :
    firstWord? (name ++ t) = some (name, nonempty? (trimStart t)) := by
  have hall : name.all (!isBlank ·) = true := by
    refine List.all_eq_true.2 fun c hc => ?_
    rw [isBlank_of_isWord (List.all_eq_true.1 (all_isWord_of_isName hname) c hc)]
    rfl
  have hstop : notBefore (!isBlank ·) t = true := by
    cases t with
    | nil => rfl
    | cons c t => simpa [notBefore] using ht
  obtain ⟨htake, hdrop⟩ := takeWhile_append_of_all hall hstop
  obtain ⟨c, n, rfl⟩ := List.exists_cons_of_ne_nil (ne_nil_of_isName hname)
  have hc : isBlank c = false := by simpa using (Bool.and_eq_true_iff.1 hall).1
  have hstart : trimStart (c :: n ++ t) = c :: (n ++ t) := trimStart_cons_of_not hc (n ++ t)
  rw [List.cons_append] at htake hdrop
  rw [firstWord?, hstart]
  simp only [htake, hdrop]

/-- A name is never taken for an unnamed function type. -/
theorem after?_func_eq_none {name t : Text} (hname : isName name = true)
    (ht : t.head?.all isBlank = true) : after? "func(".toList (name ++ t) = none := by
  cases h : after? "func(".toList (name ++ t) with
  | none => rfl
  | some rest =>
    have hparen : '(' ∉ name := not_mem_of_all (all_isWord_of_isName hname) (by decide)
    have hcut := after?_eq_some.1 h
    have heq : name ++ t = "func".toList ++ '(' :: rest := hcut
    have hblank (u : Text) (hu : t = '(' :: u) : False := by
      rw [hu] at ht
      cases ht
    rcases List.append_eq_append_iff.1 heq with ⟨a, ha, rfl⟩ | ⟨a, rfl, ha⟩
    · cases a with
      | nil => exact (hblank rest rfl).elim
      | cons c a =>
        have hmem : c ∈ "func".toList := by
          rw [ha]
          simp
        have hsolid := not_of_any_eq_false (show "func".toList.any isBlank = false by decide)
        have hc : isBlank c = true := ht
        rw [hsolid c hmem] at hc
        cases hc
    · cases a with
      | nil => exact (hblank rest ha.symm).elim
      | cons c a =>
        obtain ⟨rfl, -⟩ := List.cons.inj ha
        exact absurd (by simp) hparen

theorem resolve_name {name : Text} (hname : isName name = true) (waiting ps : List Text) :
    resolve waiting (name :: ps) = resolve (waiting ++ [name]) ps := by
  have hfunc := after?_func_eq_none (t := []) hname rfl
  have hfirst := firstWord?_append (t := []) hname rfl
  rw [List.append_nil] at hfunc hfirst
  rw [resolve, hfunc, hfirst]
  rfl

/-- The names of a group wait for its type and get it together. -/
theorem resolve_group {g : Group} (h : g.WellFormed) (ps : List Text) :
    resolve [] (g.pieces ++ ps) = g.parameters ++ resolve [] ps := by
  have hearlier (ns waiting : List Text) (hns : ∀ n ∈ ns, isName n = true) (qs : List Text) :
      resolve waiting (ns ++ qs) = resolve (waiting ++ ns) qs := by
    induction ns generalizing waiting with
    | nil => rw [List.nil_append, List.append_nil]
    | cons n ns ih =>
      rw [List.cons_append, resolve_name (hns n List.mem_cons_self),
        ih _ fun m hm => hns m (List.mem_cons_of_mem n hm), List.append_assoc, List.singleton_append]
  have hname := h.names g.last (by simp)
  have htype : nonempty? (trimStart (' ' :: g.type)) = some g.type := by
    have hstart : trimStart (' ' :: g.type) = g.type :=
      (trimStart_append_of_blank (g := [' ']) rfl g.type).trans
        (trimStart_eq_self (trim_eq_self_iff.1 h.type.trimmed).1)
    rw [hstart, nonempty?_of_ne_nil h.type.ne_nil]
  rw [Group.pieces, List.append_assoc, hearlier _ _ fun n hn => h.names n (List.mem_append_left _ hn),
    List.nil_append, List.singleton_append, resolve, after?_func_eq_none hname rfl,
    firstWord?_append hname rfl, htype]
  simp only [h.type.collapsed]
  rfl

theorem resolve_groups {gs : List Group} (h : ∀ g ∈ gs, g.WellFormed) :
    resolve [] (gs.flatMap Group.pieces) = gs.flatMap Group.parameters := by
  induction gs with
  | nil => rfl
  | cons g gs ih =>
    rw [List.flatMap_cons, resolve_group (h g List.mem_cons_self), List.flatMap_cons,
      ih fun k hk => h k (List.mem_cons_of_mem g hk)]

/-- Every declared parameter is read with the type of its group. -/
theorem parameters_join {gs : List Group} (h : ∀ g ∈ gs, g.WellFormed) :
    parameters (join ", " (gs.map Group.text)) = gs.flatMap Group.parameters := by
  rw [parameters, join_map_text, pieces_join usual_noAngle (row_pieces_groups h), resolve_groups h]

/-! ## Before the parameters -/

theorem Matched.append {s t : Text} (hs : Matched s) (ht : Matched t) : Matched (s ++ t) := by
  constructor
  · rw [depthAfter_append, hs.1, Option.bind_some, ht.1]
  · rw [depthAfter_append, hs.2, Option.bind_some, ht.2]

theorem matched_of_all {p : Char → Bool} (hp : "()[]".toList.any p = false) {t : Text}
    (h : t.all p = true) : Matched t := by
  have hnot {x : Char} (hx : x ∈ "()[]".toList) : x ∉ t :=
    not_mem_of_all h (not_of_any_eq_false hp x hx)
  exact ⟨depthAfter_of_not_mem (hnot (by decide)) (hnot (by decide)) 1,
    depthAfter_of_not_mem (hnot (by decide)) (hnot (by decide)) 1⟩

theorem Matched.parens {t : Text} (h : Matched t) : Matched ('(' :: t ++ [')']) := by
  constructor
  · rw [depthAfter_append, depthAfter, if_pos rfl, depthAfter_add h.1 (Nat.le_refl 1) 1]
    rfl
  · rw [depthAfter_append, depthAfter, if_neg (by decide), if_neg (by decide), h.2]
    rfl

theorem matched_bracketed {t : Option Text} (h : ∀ u ∈ t, IsArguments u) : Matched (bracketed t) := by
  cases t with
  | none => exact ⟨rfl, rfl⟩
  | some u =>
    have hu := (h u rfl).matched
    constructor
    · rw [bracketed, depthAfter_append, depthAfter, if_neg (by decide), if_neg (by decide), hu.1]
      rfl
    · rw [bracketed, depthAfter_append, depthAfter, if_pos rfl, depthAfter_add hu.2 (Nat.le_refl 1) 1]
      rfl

/-- Whether a character may stand before the parameters: on one line, and no opening brace. -/
def isHeadChar (c : Char) : Bool := !(c == '\n' || c == '{')

theorem all_isHeadChar_of_isName {n : Text} (h : isName n = true) : n.all isHeadChar = true := by
  refine List.all_eq_true.2 fun c hc => ?_
  have hword := all_isWord_of_isName h
  have hline : c ≠ '\n' := by
    rintro rfl
    exact not_mem_of_all hword (by decide) hc
  have hbrace : c ≠ '{' := by
    rintro rfl
    exact not_mem_of_all hword (by decide) hc
  simp [isHeadChar, hline, hbrace]

theorem all_isHeadChar_bracketed {t : Option Text} (h : ∀ u ∈ t, IsArguments u) :
    (bracketed t).all isHeadChar = true := by
  cases t with
  | none => rfl
  | some u =>
    have hu : u.all isHeadChar = true := by
      refine List.all_eq_true.2 fun c hc => ?_
      obtain ⟨hline, hbrace⟩ := (h u rfl).chars c hc
      simp [isHeadChar, hline, hbrace]
    rw [bracketed, List.all_append, List.all_cons, hu]
    decide

theorem matched_of_isName {n : Text} (h : isName n = true) : Matched n :=
  matched_of_all (by decide) (all_isWord_of_isName h)

/-- What is written of a receiver is matched and stands on one line, without braces. -/
theorem Receiver.WellFormed.text {r : Receiver} (h : r.WellFormed) :
    Matched r.text ∧ r.text.all isHeadChar = true := by
  have hstars : Matched (List.replicate r.stars '*') ∧
      (List.replicate r.stars '*').all isHeadChar = true := by
    refine ⟨matched_of_all (p := (· == '*')) (by decide) (by simp), ?_⟩
    refine List.all_eq_true.2 fun c hc => ?_
    rw [List.eq_of_mem_replicate hc]
    decide
  have hpackage : Matched ((r.package.map (· ++ ['.'])).getD []) ∧
      ((r.package.map (· ++ ['.'])).getD []).all isHeadChar = true := by
    cases hp : r.package with
    | none => exact ⟨⟨rfl, rfl⟩, rfl⟩
    | some p =>
      have hname := h.package p hp
      refine ⟨(matched_of_isName hname).append ⟨rfl, rfl⟩, ?_⟩
      rw [Option.map_some, Option.getD_some, List.all_append, all_isHeadChar_of_isName hname]
      decide
  constructor
  · refine (matched_of_isName h.name).append ?_
    refine Matched.append (s := [' ']) ⟨rfl, rfl⟩ (hstars.1.append (hpackage.1.append ?_))
    exact (matched_of_isName h.type).append (matched_bracketed h.arguments)
  · rw [Receiver.text, List.all_append, List.all_cons, List.all_append, List.all_append,
      List.all_append, all_isHeadChar_of_isName h.name, hstars.2, hpackage.2,
      all_isHeadChar_of_isName h.type, all_isHeadChar_bracketed h.arguments]
    decide

theorem Declaration.WellFormed.head {d : Declaration} (h : d.WellFormed) :
    Matched d.head ∧ d.head.all isHeadChar = true := by
  have hname : Matched (d.name ++ bracketed d.generics) ∧
      (d.name ++ bracketed d.generics).all isHeadChar = true := by
    refine ⟨(matched_of_isName h.name).append (matched_bracketed h.generics), ?_⟩
    rw [List.all_append, all_isHeadChar_of_isName h.name, all_isHeadChar_bracketed h.generics]
    rfl
  rw [Declaration.head]
  cases hr : d.receiver with
  | none => exact hname
  | some r =>
    obtain ⟨hmatched, hchars⟩ := (h.receiver r hr).text
    constructor
    · have hclosed := hmatched.parens.append (t := [' ']) ⟨rfl, rfl⟩
      have hall := hclosed.append hname.1
      simpa using hall
    · rw [Option.map_some, Option.getD_some, List.all_append, hname.2, List.all_append, List.all_cons,
        hchars]
      decide

end Synopsis.Go
