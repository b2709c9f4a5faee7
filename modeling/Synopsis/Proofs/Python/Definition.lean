import Synopsis.Proofs.Comment
import Synopsis.Proofs.Nesting.Nested
import Synopsis.Proofs.Python.Agreement

/-!
# Python: definitions and how they are written

A definition at the top of a module has a name, a list of items, which are parameters or the bare
markers `*` and `/`, and perhaps a return annotation. Three readers cut it up: the header is located
by its line, its list is closed by a parenthesis and split at commas, and each parameter is broken at
the first `=` and the first `:` outside brackets. The parameters come back with their names and
annotations (`parameters_join`), and a definition in a source of its own is the one signature of that
source (`extract_definition`).
-/

namespace Synopsis.Python

open Text Brackets

/-! ## Definitions and how they are written -/

/-- What stands between the commas of a parameter list. -/
inductive Item where
  /-- `*`: what follows is given by name. -/
  | star
  /-- `/`: what precedes is given by position. -/
  | slash
  | parameter (name : Text) (type default : Option Text)
deriving DecidableEq, Repr

/-- A function at the top of a module, whose body is one line behind an indent. -/
structure Definition where
  isAsync : Bool
  name : Text
  items : List Item
  returns : Option Text
  indent : Text
deriving DecidableEq, Repr

/-- An item without its default value. -/
def Item.bare : Item → Text
  | .star => ['*']
  | .slash => ['/']
  | .parameter name type _ => name ++ (type.map (": ".toList ++ ·)).getD []

/-- An item as it is written. -/
def Item.text : Item → Text
  | .parameter name type default =>
    Item.bare (.parameter name type default) ++ (default.map (" = ".toList ++ ·)).getD []
  | i => i.bare

/-- What is written before the parameters. -/
def Definition.head (d : Definition) : Text :=
  (if d.isAsync then "async ".toList else []) ++ ("def ".toList ++ d.name)

/-- The parameters as they are written, without their parentheses. -/
def Definition.list (d : Definition) : Text := join ", " (d.items.map Item.text)

/-- What is written after the parameters, on the same line. -/
def Definition.tail (d : Definition) : Text := (d.returns.map (" -> ".toList ++ ·)).getD [] ++ [':']

/-- What is written after the name, up to the end of the line. -/
def Definition.line (d : Definition) : Text := '(' :: d.list ++ ')' :: d.tail

/-- The line of the body. -/
def Definition.body (d : Definition) : Text := d.indent ++ "pass".toList

/-- A definition as it is written, on two lines. -/
def Definition.text (d : Definition) : Text := d.head ++ (d.line ++ '\n' :: (d.body ++ ['\n']))

/-! ## What is defined -/

/-- The parameter that an item declares, if it is no marker. -/
def Item.parameter? : Item → Option Parameter
  | .parameter name type _ => some { name, type }
  | _ => none

/-- The parameters of a definition, in order. -/
def Definition.parameters (d : Definition) : List Parameter := d.items.filterMap Item.parameter?

/-- The signature that a definition stands for. -/
def Definition.signature (d : Definition) : Signature where
  name := d.name
  parameters := d.parameters
  returnType := d.returns
  isAsync := d.isAsync
  isMethod := d.parameters.head?.any (·.name == "self".toList)

/-! ## Well-formed definitions -/

/-- What may be written as an annotation or a default: on one line, well nested, without commas
    outside brackets. -/
structure IsTerm (t : Text) : Prop where
  ne_nil : t ≠ []
  collapsed : collapse t = t
  nested : Nested false t

/-- What may be written as the name of a parameter, with its stars. -/
structure IsParameterName (n : Text) : Prop where
  ne_nil : n ≠ []
  ne_marker : n ≠ ['*'] ∧ n ≠ ['/']
  chars : ∀ c ∈ n, isBlank c = false ∧ isBracket c = false ∧ c ≠ ',' ∧ c ≠ ':' ∧ c ≠ '='

/-- An item whose parts can be told apart. -/
def Item.WellFormed : Item → Prop
  | .parameter name type default =>
    IsParameterName name ∧ (∀ t ∈ type, IsTerm t ∧ Enclosed '=' t) ∧ ∀ v ∈ default, IsTerm v
  | _ => True

/-- A definition whose parts can be told apart. -/
structure Definition.WellFormed (d : Definition) : Prop where
  name : IsWordRun d.name
  items : ∀ i ∈ d.items, i.WellFormed
  returns : ∀ r ∈ d.returns, r ≠ [] ∧ trim r = r ∧ ':' ∉ r ∧ '\n' ∉ r
  indent : d.indent ≠ [] ∧ d.indent.all isIndent = true

/-! ## Items -/

theorem IsParameterName.nested {commas : Bool} {n : Text} (h : IsParameterName n) : Nested commas n :=
  .of_all (p := fun c => !isBracket c && c != ',') (by simp) (by
    refine List.all_eq_true.2 fun c hc => ?_
    obtain ⟨-, hbracket, hcomma, -, -⟩ := h.chars c hc
    simp [hbracket, hcomma])

theorem IsParameterName.topFree {n : Text} (h : IsParameterName n) {x : Char} (hx : x = ':' ∨ x = '=') :
    noAngle.TopFree x n := by
  refine .of_all (List.all_eq_true.2 fun c hc => ?_)
  obtain ⟨-, hbracket, -, hcolon, hequals⟩ := h.chars c hc
  obtain ⟨hopens, hcloses⟩ := Bool.or_eq_false_iff.1 hbracket
  rw [hopens, hcloses]
  rcases hx with rfl | rfl
  · simpa using hcolon
  · simpa using hequals

theorem IsParameterName.collapsed {n : Text} (h : IsParameterName n) : collapse n = n :=
  collapse_of_solid h.ne_nil fun c hc => (h.chars c hc).1

/-- An annotated name, as a text on one line. -/
theorem collapse_annotated {n t : Text} (hn : IsParameterName n) (ht : IsTerm t) :
    collapse (n ++ (": ".toList ++ t)) = n ++ (": ".toList ++ t) := by
  have hname : collapse (n ++ [':']) = n ++ [':'] := by
    refine collapse_of_solid (by simp) fun c hc => ?_
    rcases List.mem_append.1 hc with hc | hc
    · exact (hn.chars c hc).1
    · rw [List.mem_singleton.1 hc]
      rfl
  have h := collapse_append_space (by simp) ht.ne_nil hname ht.collapsed
  rwa [List.append_assoc] at h

theorem ne_nil_bare {i : Item} (h : i.WellFormed) : i.bare ≠ [] := by
  cases i with
  | star => exact List.cons_ne_nil _ _
  | slash => exact List.cons_ne_nil _ _
  | parameter n t v => exact List.append_ne_nil_of_left_ne_nil h.1.ne_nil _

theorem collapse_bare {i : Item} (h : i.WellFormed) : collapse i.bare = i.bare := by
  cases i with
  | star => rfl
  | slash => rfl
  | parameter n t v =>
    cases t with
    | none =>
      show collapse (n ++ []) = n ++ []
      rw [List.append_nil, h.1.collapsed]
    | some t => exact collapse_annotated h.1 (h.2.1 t rfl).1

theorem nested_bare {i : Item} (h : i.WellFormed) : Nested false i.bare := by
  cases i with
  | star => exact .plain (by decide) (by decide) .nil
  | slash => exact .plain (by decide) (by decide) .nil
  | parameter n t v =>
    refine h.1.nested.append ?_
    cases t with
    | none => exact .nil
    | some t =>
      have hterm := (h.2.1 t rfl).1
      exact .plain (by decide) (by decide) (.plain (by decide) (by decide) hterm.nested)

theorem text_eq_bare {i : Item} (h : i.WellFormed) :
    i.text = i.bare ∨ ∃ v, IsTerm v ∧ i.text = i.bare ++ ' ' :: '=' :: ' ' :: v := by
  cases i with
  | star => exact .inl rfl
  | slash => exact .inl rfl
  | parameter n t v =>
    cases v with
    | none => exact .inl (List.append_nil _)
    | some v => exact .inr ⟨v, h.2.2 v rfl, rfl⟩

theorem ne_nil_text {i : Item} (h : i.WellFormed) : i.text ≠ [] := by
  rcases text_eq_bare h with he | ⟨v, -, he⟩
  · rw [he]
    exact ne_nil_bare h
  · rw [he]
    simp

theorem collapse_text {i : Item} (h : i.WellFormed) : collapse i.text = i.text := by
  rcases text_eq_bare h with he | ⟨v, hv, he⟩
  · rw [he, collapse_bare h]
  · have hvalue : collapse ('=' :: ' ' :: v) = '=' :: ' ' :: v :=
      collapse_append_space (s := ['=']) (by simp) hv.ne_nil rfl hv.collapsed
    rw [he]
    exact collapse_append_space (ne_nil_bare h) (by simp) (collapse_bare h) hvalue

theorem nested_text {i : Item} (h : i.WellFormed) : Nested false i.text := by
  rcases text_eq_bare h with he | ⟨v, hv, he⟩
  · rw [he]
    exact nested_bare h
  · rw [he]
    refine (nested_bare h).append ?_
    exact .plain (by decide) (by decide) (.plain (by decide) (by decide)
      (.plain (by decide) (by decide) hv.nested))

/-! ## Parameters -/

theorem topFree_bare {i : Item} (h : i.WellFormed) : noAngle.TopFree '=' i.bare := by
  cases i with
  | star => exact .of_all (by decide)
  | slash => exact .of_all (by decide)
  | parameter n t v =>
    refine (h.1.topFree (.inr rfl)).append ?_
    cases t with
    | none => exact .nil
    | some t =>
      obtain ⟨hterm, hequals⟩ := h.2.1 t rfl
      exact .append (s := ": ".toList) (.of_all (by decide)) (hterm.nested.topFree hequals)

/-- The first `=` outside brackets is the one before the default. -/
theorem cutTop_text {i : Item} (h : i.WellFormed) : noAngle.cutTop '=' i.text = i.bare := by
  have hbare := topFree_bare h
  rcases text_eq_bare h with he | ⟨v, -, he⟩
  · rw [he, cutTop, hbare.breakTop?_eq_none]
  · have hspace : noAngle.TopFree '=' [' '] := .of_all (by decide)
    have hcut := (hbare.append hspace).breakTop?_append (' ' :: v)
    rw [List.append_assoc] at hcut
    rw [he, cutTop]
    simp only [show i.bare ++ ' ' :: '=' :: ' ' :: v = i.bare ++ ([' '] ++ '=' :: ' ' :: v) from rfl,
      hcut]
    rw [trim_concat_of_blank isBlank_space, ← collapse_bare h, trim_collapse]

/-- The first `:` outside brackets is the one before the annotation. -/
theorem parameter_bare {n : Text} {t v : Option Text} (h : (Item.parameter n t v).WellFormed) :
    parameter (Item.bare (.parameter n t v)) = { name := n, type := t } := by
  have hname : noAngle.TopFree ':' n := h.1.topFree (.inl rfl)
  have htrim : trim n = n := trim_of_solid fun c hc => (h.1.chars c hc).1
  cases t with
  | none =>
    show parameter (n ++ []) = _
    rw [List.append_nil, parameter, hname.breakTop?_eq_none]
  | some t =>
    obtain ⟨hterm, -⟩ := h.2.1 t rfl
    have hcut : noAngle.breakTop? ':' (n ++ ':' :: ' ' :: t) = some (n, ' ' :: t) :=
      hname.breakTop?_append _
    have htype : trim (' ' :: t) = t := by
      rw [trim_cons_of_blank isBlank_space, ← hterm.collapsed, trim_collapse]
    show parameter (n ++ ':' :: ' ' :: t) = _
    rw [parameter, hcut]
    simp only [htrim, htype, nonempty?_of_ne_nil hterm.ne_nil]

theorem bare_ne_marker {n : Text} {t v : Option Text} (h : (Item.parameter n t v).WellFormed) :
    Item.bare (.parameter n t v) ≠ ['*'] ∧ Item.bare (.parameter n t v) ≠ ['/'] := by
  cases t with
  | none =>
    show n ++ [] ≠ _ ∧ n ++ [] ≠ _
    rw [List.append_nil]
    exact h.1.ne_marker
  | some t =>
    have hcolon : ':' ∈ Item.bare (.parameter n (some t) v) := by simp [Item.bare]
    constructor <;> intro he <;> rw [he] at hcolon <;> revert hcolon <;> decide

theorem row_items {items : List Item} (h : ∀ i ∈ items, i.WellFormed) :
    noAngle.Row (items.map Item.text) := by
  constructor
  · intro p hp
    obtain ⟨i, hi, rfl⟩ := List.mem_map.1 hp
    refine (nested_text (h i hi)).isPiece (ne_nil_text (h i hi)) ?_
    rw [← collapse_text (h i hi), trim_collapse]
  · intro p hp
    obtain ⟨i, hi, rfl⟩ := List.mem_map.1 (List.dropLast_subset _ hp)
    exact (nested_text (h i hi)).openAfter [] none

/-- Items that are written in a row are read back as their parameters. -/
theorem parameters_join {items : List Item} (h : ∀ i ∈ items, i.WellFormed) :
    parameters (join ", " (items.map Item.text)) = items.filterMap Item.parameter? := by
  have hcut : (items.map Item.text).map (noAngle.cutTop '=') = items.map Item.bare := by
    rw [List.map_map]
    exact List.map_congr_left fun i hi => cutTop_text (h i hi)
  unfold parameters
  rw [pieces_join usual_noAngle (row_items h)]
  simp only [hcut]
  clear hcut
  induction items with
  | nil => rfl
  | cons i items ih =>
    have hrest := ih fun j hj => h j (List.mem_cons_of_mem i hj)
    have hi := h i List.mem_cons_self
    cases i with
    | star => exact hrest
    | slash => exact hrest
    | parameter n t v =>
      obtain ⟨hstar, hslash⟩ := bare_ne_marker hi
      rw [List.map_cons, List.filter_cons_of_pos (by simp [hstar, hslash]), List.map_cons, hrest,
        parameter_bare hi]
      rfl

/-! ## The lines of a definition -/

theorem collapse_list {d : Definition} (h : d.WellFormed) : collapse d.list = d.list := by
  refine collapse_join fun p hp => ?_
  obtain ⟨i, hi, rfl⟩ := List.mem_map.1 hp
  exact ⟨ne_nil_text (h.items i hi), collapse_text (h.items i hi)⟩

theorem newline_not_mem_head {d : Definition} (h : d.WellFormed) : '\n' ∉ d.head := by
  have hname : '\n' ∉ d.name := not_mem_of_all h.name.2 (by decide)
  unfold Definition.head
  cases d.isAsync <;> simp [hname]

/-- The header of a definition stands on one line. -/
theorem newline_not_mem_line {d : Definition} (h : d.WellFormed) : '\n' ∉ d.line := by
  have hlist : '\n' ∉ d.list := by
    rw [← collapse_list h]
    exact newline_not_mem_collapse _
  have htail : '\n' ∉ d.tail := by
    unfold Definition.tail
    cases hr : d.returns with
    | none => decide
    | some r => simp [(h.returns r hr).2.2.2]
  simp [Definition.line, hlist, htail]

theorem newline_not_mem_body {d : Definition} (h : d.WellFormed) : '\n' ∉ d.body := by
  have hindent : '\n' ∉ d.indent := not_mem_of_all h.indent.2 (by decide)
  simp [Definition.body, hindent]

/-- A reader that finds nothing at the start of the body finds nothing in it. -/
theorem sitesFrom_body {α : Type} {read : Place → Option (α × Text)} {d : Definition} (h : d.WellFormed)
    (hread : ∀ p : Place, p.isLineStart = false → read p = none) {k : Nat}
    (hnone : read ⟨some '\n', k, d.body ++ ['\n']⟩ = none) :
    sitesFrom read 0 (some '\n') k (d.body ++ ['\n']) = [] := by
  rw [sitesFrom_line hread (newline_not_mem_body h) hnone, sitesFrom]

/-! ## Locating the definition -/

theorem functionAt?_of_not {p : Place} (h : p.isLineStart = false) : functionAt? p = none := by
  rw [functionAt?, h]
  rfl

theorem classAt?_of_not {p : Place} (h : p.isLineStart = false) : classAt? p = none := by
  rw [classAt?, h]
  rfl

theorem isIndent_of_isWord {c : Char} (h : isWord c = true) : isIndent c = false := by
  cases hc : isIndent c with
  | false => rfl
  | true =>
    rcases Bool.or_eq_true_iff.1 hc with hc | hc
    · rw [eq_of_beq hc] at h
      cases h
    · rw [eq_of_beq hc] at h
      cases h

theorem defHead?_head {d : Definition} (h : IsWordRun d.name) (t : Text) :
    defHead? (d.head ++ '(' :: t) = some ((d.isAsync, d.name), '(' :: t) := by
  have hasync : flagBy isIndent "async" (d.head ++ '(' :: t) =
      (d.isAsync, "def".toList ++ ' ' :: (d.name ++ '(' :: t)) := by
    unfold Definition.head
    cases d.isAsync with
    | true => exact flagBy_append (t := "def ".toList ++ (d.name ++ '(' :: t)) rfl "async" rfl
    | false => exact flagBy_of_head (c := 'a') rfl (by simp)
  have hgap : notBefore isIndent (d.name ++ '(' :: t) = true := by
    obtain ⟨c, hc, hword⟩ := h.head?
    simp [notBefore, hc, isIndent_of_isWord hword]
  have hname : word? (d.name ++ '(' :: t) = some (d.name, '(' :: t) := run?_append h.1 h.2 rfl
  rw [defHead?, hasync]
  simp only [keywordBy?_append rfl "def" hgap, hname, Option.bind_eq_bind, Option.bind_some]
  rfl

theorem defHead?_indent {c : Char} (hc : isIndent c = true) (t : Text) : defHead? (c :: t) = none := by
  have hne (x : Char) (hx : isIndent x = false) : (c :: t).head? ≠ some x := by
    intro he
    obtain rfl : c = x := Option.some.inj he
    rw [hc] at hx
    cases hx
  rw [defHead?, flagBy_of_head (c := 'a') rfl (hne 'a' rfl)]
  simp only [keywordBy?_eq_none_of_head (show "def".toList.head? = some 'd' from rfl) (hne 'd' rfl)]
  rfl

/-- The definition is the one function of its text. -/
theorem sites_functionAt? {d : Definition} (h : d.WellFormed) : sites functionAt? d.text =
    [⟨0, (d.isAsync, d.name), d.line ++ '\n' :: (d.body ++ ['\n'])⟩] := by
  have hread (t : Text) : functionAt? ⟨none, 0, d.head ++ (d.line ++ t)⟩ =
      some ((d.isAsync, d.name), d.line ++ t) := by
    show (defHead? (d.head ++ (d.line ++ t))).filter _ = _
    unfold Definition.line
    rw [List.cons_append, List.cons_append, defHead?_head h.name]
    rfl
  have hne : d.head ≠ [] :=
    List.append_ne_nil_of_right_ne_nil _ (List.append_ne_nil_of_right_ne_nil _ h.name.1)
  -- Behind the name the line goes on, so nothing is found before the body.
  have hline (k : Nat) (t : Text) : functionAt? ⟨d.head.getLast?, k, t⟩ = none := by
    refine functionAt?_of_not ?_
    have hlast : d.head.getLast hne ≠ '\n' :=
      fun he => newline_not_mem_head h (he ▸ List.getLast_mem hne)
    rw [List.getLast?_eq_some_getLast hne]
    simp [Place.isLineStart, hlast]
  have hbody (k : Nat) : functionAt? ⟨some '\n', k, d.body ++ ['\n']⟩ = none := by
    obtain ⟨c, u, hindent⟩ := List.exists_cons_of_ne_nil h.indent.1
    have hc : isIndent c = true := List.all_eq_true.1 h.indent.2 c (by simp [hindent])
    show (defHead? (d.body ++ ['\n'])).filter _ = none
    unfold Definition.body
    rw [hindent, List.cons_append, List.cons_append, defHead?_indent hc]
    rfl
  rw [sites, Definition.text, sitesFrom_of_read hne (hread _),
    sitesFrom_line (fun _ => functionAt?_of_not) (newline_not_mem_line h) (hline _ _),
    sitesFrom_body h (fun _ => functionAt?_of_not) (hbody _)]

theorem sites_classAt? {d : Definition} (h : d.WellFormed) : sites classAt? d.text = [] := by
  have hhead (t : Text) : classAt? ⟨none, 0, d.head ++ t⟩ = none := by
    unfold classAt? Definition.head
    cases d.isAsync <;> rfl
  have hbody (k : Nat) : classAt? ⟨some '\n', k, d.body ++ ['\n']⟩ = none := by
    have hdrop : (d.body ++ ['\n']).dropWhile isIndent = "pass\n".toList := by
      unfold Definition.body
      rw [List.append_assoc]
      exact (takeWhile_append_of_all h.indent.2 rfl).2
    unfold classAt?
    simp only [hdrop]
    rfl
  have hline : '\n' ∉ d.head ++ d.line := by
    intro hmem
    rcases List.mem_append.1 hmem with hmem | hmem
    · exact newline_not_mem_head h hmem
    · exact newline_not_mem_line h hmem
  rw [sites, Definition.text, ← List.append_assoc, sitesFrom_line (fun _ => classAt?_of_not) hline
    (by rw [List.append_assoc]; exact hhead _), sitesFrom_body h (fun _ => classAt?_of_not) (hbody _)]

theorem returnText?_tail {d : Definition} (h : d.WellFormed) (t : Text) :
    returnText? (d.tail ++ '\n' :: t) = d.returns := by
  unfold Definition.tail
  cases hr : d.returns with
  | none => rfl
  | some r =>
    obtain ⟨hne, htrim, hcolon, hnewline⟩ := h.returns r hr
    have hstart : trimStart (' ' :: (r ++ ':' :: '\n' :: t)) = r ++ ':' :: '\n' :: t := by
      obtain ⟨c, u, rfl⟩ := List.exists_cons_of_ne_nil hne
      have hc : isBlank c = false := by simpa using (trim_eq_self_iff.1 htrim).1
      rw [← List.singleton_append, trimStart_append_of_blank rfl]
      exact trimStart_cons_of_not hc _
    have hall : r.all (fun c => c ≠ ':' && c ≠ '\n') = true := by
      refine List.all_eq_true.2 fun c hc => ?_
      have h1 : c ≠ ':' := fun he => hcolon (he ▸ hc)
      have h2 : c ≠ '\n' := fun he => hnewline (he ▸ hc)
      simp [h1, h2]
    have htake := (takeWhile_append_of_all hall (t := ':' :: '\n' :: t) rfl).1
    have harrow : after? "->".toList (trimStart (" -> ".toList ++ r ++ [':'] ++ '\n' :: t)) =
        some (' ' :: (r ++ ':' :: '\n' :: t)) := by
      rw [List.append_assoc, List.append_assoc]
      rfl
    simp only [returnText?, Option.map_some, Option.getD_some, harrow, Option.bind_eq_bind,
      Option.bind_some, hstart, htake, htrim]
    rw [if_pos (by simpa using hne)]

/-! ## One definition -/

/-- The header that is located for a definition. -/
def Definition.header (d : Definition) : Header := ⟨d.isAsync, d.name, d.list, d.returns⟩

theorem functions_text {d : Definition} (h : d.WellFormed) : functions d.text = [d.header] := by
  have hnested : Nested true d.list := by
    refine nested_join fun p hp => ?_
    obtain ⟨i, hi, rfl⟩ := List.mem_map.1 hp
    exact (nested_text (h.items i hi)).weaken
  have hclosed : depthAfter '(' ')' 1 d.list = some 1 := hnested.depthAfter (by decide) (Nat.le_refl 1)
  have hgroup : group? (d.line ++ '\n' :: (d.body ++ ['\n'])) =
      some (d.list, d.tail ++ '\n' :: (d.body ++ ['\n'])) := by
    unfold Definition.line
    rw [List.append_assoc, List.cons_append]
    exact group?_of_grouped (.of_balanced hclosed _)
  rw [functions, sites_functionAt? h, List.filterMap_cons, header?, hgroup]
  simp only [Option.bind_eq_bind, Option.bind_some, collapse_list h, returnText?_tail h]
  rfl

theorem fragments_definition {d : Definition} (h : d.WellFormed) (hcomment : '#' ∉ d.text) :
    fragments d.text = [trim d.header.fragment] := by
  have hne : (trim d.header.fragment).isEmpty = false :=
    List.isEmpty_eq_false_iff.2 (trim_fragment_ne_nil d.header)
  rw [fragments, CommentStyle.strip_hash_eq_self hcomment, functions_text h, sites_classAt? h]
  simp only [List.flatMap_nil, List.append_nil, List.map_singleton, distinct]
  rw [List.filter_cons, hne]
  rfl

theorem signature_header {d : Definition} (h : d.WellFormed) :
    Python.signature (trim d.header.fragment) = .ok d.signature := by
  have hmem : d.header ∈ headers d.text := by
    unfold headers
    rw [functions_text h]
    exact List.mem_append_left _ (List.mem_singleton_self _)
  have hreturns : present? d.returns = d.returns := by
    cases hr : d.returns with
    | none => rfl
    | some r => exact nonempty?_of_ne_nil (h.returns r hr).1
  have hparameters : parameters d.list = d.parameters := parameters_join h.items
  rw [signature_fragment (wellFormed_of_mem_headers hmem), Header.signature, Definition.signature]
  simp only [Definition.header, hreturns, hparameters]

/-- A source that consists of one definition has one signature: its name, a parameter with its
    annotation for each item that is no marker, its return annotation and whether it is asynchronous. -/
theorem extract_definition {d : Definition} (h : d.WellFormed) (hcomment : '#' ∉ d.text) :
    Language.python.extract d.text = [d.signature] := by
  have hblank : blank d.text = false := by
    unfold Definition.text Definition.head
    cases d.isAsync <;> rfl
  have hfragments : Language.python.fragments d.text = [trim d.header.fragment] :=
    fragments_definition h hcomment
  have hsignature : Language.python.signature (trim d.header.fragment) = .ok d.signature := by
    rw [Language.signature, signature_header h]
  rw [Language.extract, extractWith, hblank, if_neg Bool.false_ne_true, hfragments, List.filterMap_cons,
    hsignature]
  rfl

theorem enclosed_of_take {x : Char} {t : Text}
    (h : ∀ k ∈ List.range t.length, (t.drop k).head? = some x →
      (t.take k).count '(' ≠ (t.take k).count ')') : Enclosed x t := by
  rintro a b rfl ha
  have hk := h a.length (by simp) (by simp)
  rw [List.take_left] at hk
  exact hk ha.count_eq

/-- An asynchronous method with both markers, a default that holds a colon and commas, and an
    annotation that holds an equals sign. -/
def fetchDefinition : Definition where
  isAsync := true
  name := "fetch".toList
  items := [.parameter "self".toList none none,
    .parameter "url".toList (some "Annotated[str, Field(min=1)]".toList) none, .slash, .star,
    .parameter "table".toList (some "dict".toList) (some "\x7b1: (2, 3)\x7d".toList)]
  returns := some "list[Row] | None".toList
  indent := "    ".toList

theorem fetchDefinition_wellFormed : fetchDefinition.WellFormed := by
  have hplain {commas : Bool} {t : Text} (ht : t.all (fun c => !isBracket c && c != ',') = true) :
      Nested commas t := .of_all (by simp) ht
  have hname {n : Text} (hne : n ≠ []) (hmarker : n ≠ ['*'] ∧ n ≠ ['/'])
      (hn : n.all (fun c => !isBlank c && !isBracket c && c != ',' && c != ':' && c != '=') = true) :
      IsParameterName n :=
    ⟨hne, hmarker, fun c hc => by simpa [and_assoc] using List.all_eq_true.1 hn c hc⟩
  have hurl : IsTerm "Annotated[str, Field(min=1)]".toList := by
    have hfield : Nested true "str, Field(min=1)".toList :=
      (hplain (t := "str".toList) (by decide)).append (.plain (by decide) (fun _ => rfl)
        ((hplain (t := " Field".toList) (by decide)).append
          (.group (o := '(') (c := ')') (by decide) (hplain (t := "min=1".toList) (by decide)) .nil)))
    exact ⟨by decide, by decide, (hplain (t := "Annotated".toList) (by decide)).append
      (.group (o := '[') (c := ']') (by decide) hfield .nil)⟩
  have hdict : IsTerm "dict".toList := ⟨by decide, by decide, hplain (by decide)⟩
  have htable : IsTerm "\x7b1: (2, 3)\x7d".toList := by
    have hpair : Nested true "2, 3".toList := (hplain (t := "2".toList) (by decide)).append
      (.plain (by decide) (fun _ => rfl) (hplain (t := " 3".toList) (by decide)))
    have hinner : Nested true "1: (2, 3)".toList := (hplain (t := "1: ".toList) (by decide)).append
      (.group (o := '(') (c := ')') (by decide) hpair .nil)
    exact ⟨by decide, by decide, .group (o := '\x7b') (c := '\x7d') (by decide) hinner .nil⟩
  refine ⟨⟨by decide, by decide⟩, ?_, ?_, by decide⟩
  · intro i hi
    simp only [fetchDefinition, List.mem_cons, List.not_mem_nil, or_false] at hi
    rcases hi with rfl | rfl | rfl | rfl | rfl
    · exact ⟨hname (by decide) (by decide) (by decide), by rintro t ⟨⟩, by rintro v ⟨⟩⟩
    · refine ⟨hname (by decide) (by decide) (by decide), ?_, by rintro v ⟨⟩⟩
      rintro t ⟨⟩
      exact ⟨hurl, enclosed_of_take (by decide)⟩
    · trivial
    · trivial
    · refine ⟨hname (by decide) (by decide) (by decide), ?_, ?_⟩
      · rintro t ⟨⟩
        exact ⟨hdict, enclosed_of_take (by decide)⟩
      · rintro v ⟨⟩
        exact htable
  · rintro r ⟨⟩
    decide

theorem extract_definition_fetchDefinition :
    fetchDefinition.text = ("async def fetch(self, url: Annotated[str, Field(min=1)], /, *, " ++
        "table: dict = \x7b1: (2, 3)\x7d) -> list[Row] | None:\n    pass\n").toList ∧
      Language.python.extract fetchDefinition.text = [{
        name := "fetch".toList
        parameters := [⟨"self".toList, none, false⟩,
          ⟨"url".toList, some "Annotated[str, Field(min=1)]".toList, false⟩,
          ⟨"table".toList, some "dict".toList, false⟩]
        returnType := some "list[Row] | None".toList
        isAsync := true
        isMethod := true }] := by
  refine ⟨by decide +kernel, ?_⟩
  rw [extract_definition fetchDefinition_wellFormed (by decide +kernel)]
  decide +kernel

end Synopsis.Python
