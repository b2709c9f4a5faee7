import Synopsis.Proofs.Comment
import Synopsis.Proofs.Nesting.Depth
import Synopsis.Proofs.Nesting.TypeText
import Synopsis.Proofs.Script.Agreement

/-!
# TypeScript and JavaScript: how much of a return type is read

The reader of a return type knows no brackets and stops at the first brace, whatever the brace stands in. A
function at the top of a module is found with its name and its parameters, and with its return type up to
there (`extract_declaration`). So a type is read whole exactly when it is written without braces. What is
read of any other is cut inside a bracket, as no brace of a return type stands outside them all.
-/

namespace Synopsis.Script

open Text

/-! ## Functions with a return type -/

/-- A function at the top of a module, with its return type on the line of its head. -/
structure Declaration where
  name : Text
  parameters : Text
  returns : Text
deriving DecidableEq, Repr

/-- What is written after the parameters. -/
def Declaration.tail (d : Declaration) : Text := ": ".toList ++ (d.returns ++ " \x7b\n\x7d\n".toList)

/-- A function as it is written, with nothing in its body. -/
def Declaration.text (d : Declaration) : Text :=
  "function ".toList ++ (d.name ++ '(' :: (d.parameters ++ ')' :: d.tail))

/-- The return type that is read: what is written of it before its first brace. -/
def Declaration.readType (d : Declaration) : Text := trim (before '{' d.returns)

/-- The signature that is read. -/
def Declaration.readSignature (d : Declaration) : Signature where
  name := d.name
  parameters := Script.parameters d.parameters
  returnType := some d.readType

/-- A text with no start of a comment. -/
structure Uncommented (t : Text) : Prop where
  block : ¬ "/*".toList <:+: t
  line : ¬ "//".toList <:+: t

theorem Uncommented.of_not_mem {t : Text} (h : '/' ∉ t) : Uncommented t :=
  ⟨fun hi => h (hi.subset (by decide)), fun hi => h (hi.subset (by decide))⟩

/-- A type as it is written behind a colon: on one line, well nested, with its braces inside other
    brackets. -/
structure IsReturn (r : Text) : Prop where
  ne_nil : r ≠ []
  trimmed : trim r = r
  nested : NestedType r
  enclosed : ∀ a b, r = a ++ '{' :: b → ¬ NestedType a
  chars : ∀ c ∈ r, c ≠ '=' ∧ c ≠ ';' ∧ c ≠ '\n' ∧ c ≠ '@'
  uncommented : Uncommented r

/-- A function whose parts can be told apart. -/
structure Declaration.WellFormed (d : Declaration) : Prop where
  name : isDollarName d.name = true
  closed : depthAfter '(' ')' 1 d.parameters = some 1
  unmarked : '@' ∉ d.parameters
  uncommented : Uncommented d.parameters
  returns : IsReturn d.returns

/-! ## The head -/

theorem Declaration.strip_text {d : Declaration} (h : d.WellFormed) :
    CommentStyle.slashes.strip d.text = d.text := by
  have hname : '/' ∉ d.name := not_mem_of_isDollarName h.name (by decide +kernel)
  have hbody : CommentStyle.slashes.strip "\x7b\n\x7d\n".toList = "\x7b\n\x7d\n".toList := by decide
  have htail : CommentStyle.slashes.strip d.tail = d.tail := by
    show CommentStyle.slashes.strip (": ".toList ++ (d.returns ++ ' ' :: "\x7b\n\x7d\n".toList)) = _
    rw [CommentStyle.strip_slashes_append_of_not_mem (by decide),
      CommentStyle.strip_slashes_append_cons h.returns.uncommented.block h.returns.uncommented.line
        (by decide) (by decide), hbody]
    rfl
  unfold Declaration.text
  rw [CommentStyle.strip_slashes_append_of_not_mem (by decide),
    CommentStyle.strip_slashes_append_of_not_mem hname, CommentStyle.strip_slashes_cons (by decide),
    CommentStyle.strip_slashes_append_cons h.uncommented.block h.uncommented.line (by decide) (by decide),
    htail]

/-- What is read of the head of a function. -/
def Declaration.head (d : Declaration) : Head where
  name := d.name
  nameOffset := "function ".toList.length

theorem afterFunction?_append {t : Text} (ht : notBefore isBlank t = true) (hstar : t.head? ≠ some '*') :
    afterFunction? ("function ".toList ++ t) = some t := by
  have hblank : t.head?.any isBlank = false := by simpa [notBefore] using ht
  have hstart : trimStart (' ' :: t) = t := trimStart_eq_self hblank
  have hnone : char? '*' (trimStart (' ' :: t)) = none := by
    rw [hstart]
    exact after?_eq_none_of_head (c := '*') rfl hstar
  have hskip : skip1? isBlank (' ' :: t) = some t :=
    (skip1?_eq isBlank (' ' :: t)).trans (congrArg some hstart)
  have hafter : after? "function".toList ("function ".toList ++ t) = some (' ' :: t) :=
    after?_append "function".toList (' ' :: t)
  unfold afterFunction?
  rw [hafter]
  simp only [Option.bind_eq_bind, Option.bind_some, hnone, hskip, Option.map_none, Option.none_or]

theorem functionAt?_text {d : Declaration} (h : d.WellFormed) :
    functionAt? (.between [] d.text) = some (d.head, d.parameters ++ ')' :: d.tail) := by
  obtain ⟨c, n, hcons⟩ := List.exists_cons_of_ne_nil (all_isDollarWord h.name).1
  have hc : c ∈ d.name := hcons ▸ List.mem_cons_self
  have hstar : c ≠ '*' := by
    rintro rfl
    exact not_mem_of_isDollarName h.name (by decide +kernel) hc
  have hafter : afterFunction? d.text = some (d.name ++ '(' :: (d.parameters ++ ')' :: d.tail)) := by
    refine afterFunction?_append ?_ ?_
    · simp [hcons, notBefore, solid_of_isDollarName h.name c hc]
    · simpa [hcons] using hstar
  have hlead : lineLead? (.between [] d.text) = some d.text := rfl
  have hhead : d.text.head? = some 'f' := rfl
  have hexport : flag "export" d.text = (false, d.text) :=
    flag_of_head (c := 'e') rfl (by rw [hhead]; decide)
  have hasync : flag "async" d.text = (false, d.text) :=
    flag_of_head (c := 'a') rfl (by rw [hhead]; decide)
  have hdefault : skipKeyword ["default"] d.text = d.text := by
    rw [skipKeyword, List.findSome?_cons,
      keyword?_eq_none_of_head (c := 'd') rfl (by rw [hhead]; decide)]
    rfl
  have hname : dollarName? (d.name ++ '(' :: (d.parameters ++ ')' :: d.tail)) =
      some (d.name, '(' :: (d.parameters ++ ')' :: d.tail)) := dollarName?_append h.name rfl
  have hoffset : (Place.between [] d.text).offsetOf (d.name ++ '(' :: (d.parameters ++ ')' :: d.tail)) =
      "function ".toList.length := Place.offsetOf_between [] "function ".toList _
  refine functionAt?_eq_some_iff.2 ⟨d.text, _, d.name, _, hlead, ?_, hname, rfl, ?_⟩
  · rw [hexport, hdefault, hasync]
    exact hafter
  · rw [hexport, hdefault, hasync, hoffset]
    rfl

/-! ## The return type -/

variable {r : Text}

/-- What is left of a type is cut off at a brace, or it is the whole type. -/
theorem readType_cases (h : IsReturn r) :
    ('{' ∉ r ∧ trim (before '{' r) = r) ∨
      ∃ a b, r = a ++ '{' :: b ∧ '{' ∉ a ∧ trim (before '{' r) = trim a ∧ ¬ NestedType a := by
  by_cases hbrace : '{' ∈ r
  · obtain ⟨a, b, hab, ha⟩ := List.eq_append_cons_of_mem hbrace
    refine .inr ⟨a, b, hab, ha, ?_, h.enclosed a b hab⟩
    rw [hab, before_append ha]
  · exact .inl ⟨hbrace, by rw [before_eq_self hbrace, h.trimmed]⟩

theorem readType_eq_iff (h : IsReturn r) : trim (before '{' r) = r ↔ '{' ∉ r := by
  constructor
  · intro hread hmem
    rw [← hread] at hmem
    exact not_mem_before '{' r (mem_of_mem_trim hmem)
  · intro hbrace
    rw [before_eq_self hbrace, h.trimmed]

/-- A type that is cut at a brace is cut inside a bracket. -/
theorem not_nestedType_readType (h : IsReturn r) (hmem : '{' ∈ r) :
    ¬ NestedType (trim (before '{' r)) := by
  rcases readType_cases h with ⟨hbrace, -⟩ | ⟨a, b, -, -, hread, hnested⟩
  · exact absurd hmem hbrace
  · rw [hread]
    exact fun hcut => hnested hcut.of_trim

theorem readType_ne_nil (h : IsReturn r) : trim (before '{' r) ≠ [] := by
  rcases readType_cases h with ⟨-, hread⟩ | ⟨a, b, -, -, hread, hnested⟩
  · rw [hread]
    exact h.ne_nil
  · rw [hread, Ne, trim_eq_nil_iff]
    exact fun hblank => hnested (.of_blank hblank)

/-- What is read of a type goes up to a brace: the first one of the type, or the one of the body. -/
theorem exists_cut_of_isReturn (h : IsReturn r) :
    ∃ a b, r ++ " \x7b\n\x7d\n".toList = a ++ '{' :: b ∧ trim a = trim (before '{' r) ∧
      a.all (fun c => c ≠ '=' && c ≠ '{' && c ≠ ';' && c ≠ '\n') = true := by
  have hplain {c : Char} (hc : c ∈ r) (hopen : c ≠ '{') :
      (c ≠ '=' && c ≠ '{' && c ≠ ';' && c ≠ '\n') = true := by
    obtain ⟨hequals, hsemicolon, hline, -⟩ := h.chars c hc
    simp [hopen, hequals, hsemicolon, hline]
  rcases readType_cases h with ⟨hbrace, hread⟩ | ⟨a, b, hab, ha, hread, -⟩
  · refine ⟨r ++ [' '], "\n\x7d\n".toList, by simp, ?_, List.all_eq_true.2 fun c hc => ?_⟩
    · rw [trim_concat_of_blank isBlank_space, h.trimmed, hread]
    · rcases List.mem_append.1 hc with hmem | hspace
      · exact hplain hmem fun he => hbrace (he ▸ hmem)
      · obtain rfl := List.mem_singleton.1 hspace
        decide
  · refine ⟨a, b ++ " \x7b\n\x7d\n".toList, ?_, hread.symm, List.all_eq_true.2 fun c hc => ?_⟩
    · rw [hab, List.append_assoc, List.cons_append]
    · exact hplain (hab ▸ List.mem_append_left _ hc) fun he => ha (he ▸ hc)

theorem returnText_tail {d : Declaration} (h : IsReturn d.returns) : returnText d.tail = d.readType := by
  have hcolon : char? ':' (trimStart d.tail) = some (' ' :: (d.returns ++ " \x7b\n\x7d\n".toList)) := rfl
  have hstart : trimStart (' ' :: (d.returns ++ " \x7b\n\x7d\n".toList)) =
      d.returns ++ " \x7b\n\x7d\n".toList := by
    have hsolid := (trim_eq_self_iff.1 h.trimmed).1
    rw [head?_of_isPrefix (List.prefix_append _ " \x7b\n\x7d\n".toList) h.ne_nil] at hsolid
    exact (trimStart_append_of_blank (g := [' ']) rfl _).trans (trimStart_eq_self hsolid)
  obtain ⟨a, b, hcut, hread, hall⟩ := exists_cut_of_isReturn h
  unfold returnText
  rw [hcolon]
  dsimp only
  rw [hstart, hcut, (takeWhile_append_of_all hall (t := '{' :: b) rfl).1, hread]
  rfl

/-! ## Sources -/

/-- The entry that a function is located as. -/
def Declaration.entry (d : Declaration) : Entry :=
  .callable false d.name [] ('(' :: d.parameters ++ [')']) (some d.readType) none

theorem functionEntry_head {d : Declaration} (h : d.WellFormed) (start : Nat) :
    functionEntry ⟨start, d.head, d.parameters ++ ')' :: d.tail⟩ = d.entry := by
  have hparens : parens ('(' :: (d.parameters ++ ')' :: d.tail)) =
      ('(' :: d.parameters ++ [')'], d.tail) := balanced_of_depthAfter h.closed (by decide) d.tail
  have hreturns : nonempty? (returnText d.tail) = some d.readType := by
    rw [returnText_tail h.returns]
    exact nonempty?_of_ne_nil (readType_ne_nil h.returns)
  unfold functionEntry
  simp only [hparens, hreturns]
  rfl

/-- The name of a function is outside all braces. -/
theorem Declaration.topLevelAt_name {d : Declaration} (h : d.WellFormed) :
    topLevelAt (braceDepths d.text) "function ".toList.length = true := by
  obtain ⟨c, n, hcons⟩ := List.exists_cons_of_ne_nil (all_isDollarWord h.name).1
  have hc : c ≠ '{' := by
    rintro rfl
    exact not_mem_of_isDollarName h.name (by decide +kernel) (hcons ▸ List.mem_cons_self)
  unfold Declaration.text
  rw [hcons, List.cons_append]
  exact topLevelAt_append (s := []) (u := "function ".toList) (by decide) (by decide) hc rfl

theorem entry_mem_entries {d : Declaration} (h : d.WellFormed) :
    d.entry ∈ entries (CommentStyle.slashes.strip d.text) := by
  have hsite := mem_sites_start (List.cons_ne_nil _ _) (functionAt?_text h)
  rw [Declaration.strip_text h, ← functionEntry_head h 0]
  unfold entries bindings
  refine List.mem_append_left _ (List.mem_append_left _ (List.mem_append_left _ ?_))
  refine List.mem_append_left _ ?_
  exact List.mem_map_of_mem (List.mem_filter.2 ⟨hsite, Declaration.topLevelAt_name h⟩)

theorem unmarked_entry {d : Declaration} (h : d.WellFormed) : d.entry.Unmarked := by
  have hname : '@' ∉ d.name := not_mem_of_isDollarName h.name (by decide +kernel)
  have htype : '@' ∉ d.readType := fun hmem =>
    (h.returns.chars _ ((List.takeWhile_prefix _).subset (mem_of_mem_trim hmem))).2.2.2 rfl
  refine .of_not_mem ?_
  unfold Declaration.entry
  rw [fragment_callable]
  simp [writtenHeader, writtenName, writtenReturns, hname, htype, h.unmarked]

/-- A function with a return type is a signature with its name, its parameters and what its type has in
    front of the first brace. That is the whole type when there is no brace in it, and otherwise the
    beginning of a bracket that is not closed. -/
theorem extract_declaration {d : Declaration} (h : d.WellFormed) :
    d.readSignature ∈ Language.typescript.extract d.text ∧
      (d.readType = d.returns ↔ '{' ∉ d.returns) ∧ ('{' ∈ d.returns → ¬ NestedType d.readType) := by
  refine ⟨?_, readType_eq_iff h.returns, not_nestedType_readType h.returns⟩
  have hmem := entry_mem_entries h
  have hclosed : Closed d.entry.list := ⟨d.parameters, rfl, h.closed⟩
  have hread := signature_fragment (wellFormed_of_mem_entries hmem) hclosed (unmarked_entry h)
  have hsignature : d.entry.signature = d.readSignature := by
    simp only [Declaration.entry, Entry.signature, unwrap_cons_concat, List.append_nil]
    rfl
  rw [hsignature] at hread
  exact mem_extract_of_entry rfl hmem hclosed hread

/-- A function whose return type nests parentheses and square brackets in angle brackets. -/
def tableDeclaration : Declaration where
  name := "table".toList
  parameters := "keys: K[]".toList
  returns := "Map<K, (V | null)[]>".toList

/-- A function whose return type has an object type inside angle brackets. -/
def objectDeclaration : Declaration where
  name := "f".toList
  parameters := []
  returns := "Promise<\x7b a: B \x7d>".toList

theorem tableDeclaration_wellFormed : tableDeclaration.WellFormed := by
  have hplain {t : Text} (ht : t.all (fun c => !isTypeBracket c) = true) : NestedType t := .of_all ht
  have hinner : NestedType "K, (V | null)[]".toList := (hplain (t := "K, ".toList) (by decide)).append
    (.group (o := '(') (c := ')') (by decide) (by decide) (hplain (t := "V | null".toList) (by decide))
      (.group (o := '[') (c := ']') (by decide) (by decide) .nil .nil))
  have hnested : NestedType tableDeclaration.returns := (hplain (t := "Map".toList) (by decide)).append
    (.group (o := '<') (c := '>') (by decide) (by decide) hinner .nil)
  refine ⟨by decide, by decide, by decide, .of_not_mem (by decide), by decide, by decide, hnested, ?_,
    forall_mem_of_all (by decide), .of_not_mem (by decide)⟩
  intro a b hab
  have hmem : '{' ∈ tableDeclaration.returns := hab ▸ List.mem_append_right a List.mem_cons_self
  exact absurd hmem (by decide)

theorem objectDeclaration_wellFormed : objectDeclaration.WellFormed := by
  have hplain {t : Text} (ht : t.all (fun c => !isTypeBracket c) = true) : NestedType t := .of_all ht
  have hobject : NestedType "\x7b a: B \x7d".toList := .group (o := '\x7b') (c := '\x7d') (by decide)
    (by decide) (hplain (t := " a: B ".toList) (by decide)) .nil
  have hnested : NestedType objectDeclaration.returns :=
    (hplain (t := "Promise".toList) (by decide)).append
      (.group (o := '<') (c := '>') (by decide) (by decide) hobject .nil)
  refine ⟨by decide, by decide, by decide, .of_not_mem (by decide), by decide, by decide, hnested, ?_,
    forall_mem_of_all (by decide), .of_not_mem (by decide)⟩
  -- There is one brace, and an angle bracket is open in front of it.
  intro a b hab ha
  have hfirst : '{' ∉ a := by
    have hone : (a ++ '{' :: b).count '{' = 1 := by
      rw [← hab]
      decide
    rw [List.count_append, List.count_cons_self] at hone
    exact List.count_eq_zero.1 (by omega)
  obtain rfl : "Promise<".toList = a := by
    rw [← before_append hfirst b, ← hab]
    decide
  have harrow : ¬ fatArrow <:+: "Promise<".toList := fun hi =>
    absurd (hi.subset (show '=' ∈ fatArrow by decide)) (by decide)
  exact absurd (ha.depthAfter_iff.2 harrow) (by decide)

theorem extract_declaration_tableDeclaration :
    tableDeclaration.readSignature ∈ Language.typescript.extract tableDeclaration.text ∧
      (tableDeclaration.readType = tableDeclaration.returns ↔ '{' ∉ tableDeclaration.returns) ∧
      ('{' ∈ tableDeclaration.returns → ¬ NestedType tableDeclaration.readType) :=
  extract_declaration tableDeclaration_wellFormed

/-- The type argument of a promise is cut off. -/
theorem extract_objectDeclaration : objectDeclaration.WellFormed ∧
    ∀ s ∈ Language.typescript.extract objectDeclaration.text,
      s.returnType ≠ some objectDeclaration.returns :=
  ⟨objectDeclaration_wellFormed, by decide +kernel⟩

end Synopsis.Script
