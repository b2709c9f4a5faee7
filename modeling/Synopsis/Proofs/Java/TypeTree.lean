import Synopsis.Language
import Synopsis.Proofs.Comment
import Synopsis.Proofs.Java.Header

/-!
# Java: a source is read as the tree of its types

A type is a word, a name and its members in braces; a member is a method, a constructor or a field,
and types nest. `fragments_text` says that a source written from such a tree yields the types and
their methods and constructors in the order in which they stand, each member with the innermost type
around it.
-/

namespace Synopsis.Java

open Text

/-! ## Trees and how they are written -/

/-- The two kinds of types. -/
inductive TypeKind where
  | ofClass
  | ofInterface
deriving DecidableEq, Repr

/-- The word that opens a type. -/
def TypeKind.word : TypeKind → String
  | .ofClass => "class"
  | .ofInterface => "interface"

/-- What a type declares besides other types. A method may have no body, a field no value. -/
inductive Member where
  | method (result name params : Text) (body : Option Text)
  | constructor (params body : Text)
  | field (type name : Text) (value : Option Text)
deriving DecidableEq, Repr

/-- The members of a type, each with the blanks before it; blanks may also follow the last. -/
inductive Members where
  | nil (gap : Text)
  | member (gap : Text) (m : Member) (rest : Members)
  | nested (gap : Text) (kind : TypeKind) (name : Text) (inner rest : Members)
deriving DecidableEq, Repr

/-- A type with all that stands in its braces. -/
structure TypeTree where
  kind : TypeKind
  name : Text
  members : Members
deriving DecidableEq, Repr

/-- The value of a field behind its sign. -/
def valueText : Option Text → Text
  | none => []
  | some value => " = ".toList ++ value

/-- What is written of a field before its semicolon. -/
def fieldHeader (type name : Text) (value : Option Text) : Text :=
  type ++ ' ' :: (name ++ valueText value)

/-- What is written of a type before its opening brace. -/
def typeHeader (kind : TypeKind) (name : Text) : Text := kind.word.toList ++ ' ' :: (name ++ [' '])

/-- A member of a type as it is written. -/
def Member.text (owner : Text) : Member → Text
  | .method result name params (some body) =>
    memberHeader (result ++ [' ']) name params ++ " \x7b".toList ++ body ++ ['}']
  | .method result name params none => memberHeader (result ++ [' ']) name params ++ [';']
  | .constructor params body => memberHeader [] owner params ++ " \x7b".toList ++ body ++ ['}']
  | .field type name value => fieldHeader type name value ++ [';']

/-- The members of a type as they are written. -/
def Members.text (owner : Text) : Members → Text
  | .nil gap => gap
  | .member gap m rest => gap ++ m.text owner ++ rest.text owner
  | .nested gap kind name inner rest =>
    gap ++ typeHeader kind name ++ '{' :: inner.text name ++ '}' :: rest.text owner

/-- A type as it is written. -/
def TypeTree.text (t : TypeTree) : Text :=
  typeHeader t.kind t.name ++ '{' :: t.members.text t.name ++ ['}']

/-! ## What is declared -/

/-- What a member declares for its owner. -/
def Member.entry? (owner : Text) : Member → Option Entry
  | .method result name params _ => some (.member (some result) name params owner)
  | .constructor params _ => some (.member none owner params owner)
  | .field _ _ _ => none

/-- What the members of a type declare, in the order in which they stand. -/
def Members.preorder (owner : Text) : Members → List Entry
  | .nil _ => []
  | .member _ m rest => (m.entry? owner).toList ++ rest.preorder owner
  | .nested _ _ name inner rest => .type name :: inner.preorder name ++ rest.preorder owner

/-- A type, and then what its members declare. -/
def TypeTree.preorder (t : TypeTree) : List Entry := .type t.name :: t.members.preorder t.name

/-! ## Well-formed trees -/

/-- Whether a character may stand in the value of a field. -/
def isValueChar (c : Char) : Bool := !(isQuote c || c == '{' || c == '}' || c == ';')

/-- What may be written as the value of a field: every parenthesis matched, without literals, braces
    and semicolons. -/
structure IsValue (value : Text) : Prop where
  closed : depthAfter '(' ')' 1 value = some 1
  chars : value.all isValueChar = true

/-- A member whose parts can be told apart. -/
def Member.WellFormed : Member → Prop
  | .method result name params body =>
    IsResult result ∧ isName name = true ∧ IsParameters params ∧ ∀ b ∈ body, Body b
  | .constructor params body => IsParameters params ∧ Body body
  | .field type name value =>
    type.all isFieldChar = true ∧ isName name = true ∧ ∀ v ∈ value, IsValue v

/-- Members whose parts can be told apart, at every depth. -/
def Members.WellFormed : Members → Prop
  | .nil gap => blank gap = true
  | .member gap m rest => blank gap = true ∧ m.WellFormed ∧ rest.WellFormed
  | .nested gap _ name inner rest =>
    blank gap = true ∧ isName name = true ∧ inner.WellFormed ∧ rest.WellFormed

/-- The blanks behind the last member. -/
def Members.lastGap : Members → Text
  | .nil gap => gap
  | .member _ _ rest => rest.lastGap
  | .nested _ _ _ _ rest => rest.lastGap

theorem Members.WellFormed.lastGap {ms : Members} (h : ms.WellFormed) : blank ms.lastGap = true := by
  induction ms with
  | nil gap => exact h
  | member gap m rest ih => exact ih h.2.2
  | nested gap kind name inner rest _ ih => exact ih h.2.2.2

/-- A type whose parts can be told apart, at every depth. -/
def TypeTree.WellFormed (t : TypeTree) : Prop := isName t.name = true ∧ t.members.WellFormed

/-! ## Members -/

theorem word_mem_typeWords (kind : TypeKind) : kind.word ∈ typeWords := by
  cases kind <;> decide

theorem all_isPlain_of_blank {gap : Text} (h : blank gap = true) : gap.all isPlain = true :=
  all_isPlain (by decide) h

theorem all_isHeaderChar_of_blank {gap : Text} (h : blank gap = true) :
    gap.all isHeaderChar = true :=
  all_isHeaderChar (by decide) h

section Header

variable {gap name : Text}

theorem all_isPlain_of_isName (h : isName name = true) : name.all isPlain = true :=
  all_isPlain (by decide) (all_isWord_of_isName h)

theorem all_isHeaderChar_of_isName (h : isName name = true) : name.all isHeaderChar = true :=
  all_isHeaderChar (by decide) (all_isWord_of_isName h)

theorem isHeader_memberHeader {lead params : Text} (hgap : blank gap = true)
    (hlead : lead.all isTypeChar = true) (hname : isName name = true) (hparams : IsParameters params) :
    IsHeader (gap ++ memberHeader lead name params) := by
  have hgroup : IsHeader ('(' :: params ++ [')']) := by
    refine isHeader_group (fun c hc => ?_) hparams.closed
    have hchar := List.all_eq_true.1 hparams.chars c hc
    simp only [isParameterChar, Bool.not_eq_true', Bool.or_eq_false_iff] at hchar
    exact hchar.1.1.1
  have hall : (gap ++ (lead ++ name)).all isHeaderChar = true := by
    rw [List.all_append, List.all_append, all_isHeaderChar_of_blank hgap,
      all_isHeaderChar (by decide) hlead, all_isHeaderChar_of_isName hname]
    rfl
  have h := (isHeader_of_all hall).append hgroup
  simpa [memberHeader] using h

theorem all_isPlain_memberHeader {lead params : Text} (hlead : lead.all isTypeChar = true)
    (hname : isName name = true) (hparams : IsParameters params) :
    (memberHeader lead name params).all isPlain = true := by
  have hparams' : params.all isPlain = true := all_isPlain (by decide) hparams.chars
  simp [memberHeader, all_isPlain (by decide) hlead, all_isPlain_of_isName hname, hparams',
    show isPlain '(' = true by decide, show isPlain ')' = true by decide]

theorem all_isPlain_fieldHeader {type : Text} {value : Option Text}
    (htype : type.all isFieldChar = true) (hname : isName name = true) (hvalue : ∀ v ∈ value, IsValue v) :
    (fieldHeader type name value).all isPlain = true := by
  have hvalue' : (valueText value).all isPlain = true := by
    cases value with
    | none => rfl
    | some v =>
      have hv : v.all isPlain = true := all_isPlain (by decide) (hvalue v rfl).chars
      rw [valueText, List.all_append, hv]
      decide
  simp [fieldHeader, all_isPlain (by decide) htype, all_isPlain_of_isName hname, hvalue',
    show isPlain ' ' = true by decide]

theorem isHeader_fieldHeader {type : Text} {value : Option Text} (hgap : blank gap = true)
    (htype : type.all isFieldChar = true) (hname : isName name = true) (hvalue : ∀ v ∈ value, IsValue v) :
    IsHeader (gap ++ fieldHeader type name value) := by
  have hall : (gap ++ (type ++ ' ' :: name)).all isHeaderChar = true := by
    simp [all_isHeaderChar_of_blank hgap, all_isHeaderChar (by decide) htype,
      all_isHeaderChar_of_isName hname, show isHeaderChar ' ' = true by decide]
  have hvalue' : IsHeader (valueText value) := by
    cases value with
    | none => exact isHeader_of_all rfl
    | some v =>
      refine (isHeader_of_all (by decide)).append (isHeader_of_balanced (fun c hc => ?_) (hvalue v rfl).closed)
      have hchar := List.all_eq_true.1 (hvalue v rfl).chars c hc
      by_cases hopen : c = '('
      · exact .inr hopen
      · refine .inl ?_
        simp_all [isValueChar, isHeaderChar]
  have h := (isHeader_of_all hall).append hvalue'
  simpa [fieldHeader] using h

/-- The header of a field declares nothing, whatever annotations stand in it. -/
theorem member?_fieldHeader {type : Text} (hgap : blank gap = true) (htype : type.all isFieldChar = true)
    (hname : isName name = true) (value : Option Text) (owner : Text) :
    member? owner (gap ++ fieldHeader type name value) = none := by
  have hfree : '(' ∉ gap ++ (type ++ ' ' :: name) := by
    have hg : '(' ∉ gap := not_mem_of_all hgap (by decide)
    have ht : '(' ∉ type := not_mem_of_all htype (by decide)
    have hn : '(' ∉ name := not_mem_of_all (all_isWord_of_isName hname) (by decide)
    simp [hg, ht, hn]
  cases value with
  | none =>
    have heq : gap ++ fieldHeader type name none = gap ++ (type ++ ' ' :: name) := by
      simp [fieldHeader, valueText]
    rw [heq, member?_of_not_mem hfree]
  | some v =>
    have heq : gap ++ fieldHeader type name (some v) =
        gap ++ (type ++ ' ' :: name) ++ [' '] ++ '=' :: ' ' :: v := by
      simp [fieldHeader, valueText]
    rw [heq, member?_assignment]
    rw [List.mem_append, not_or]
    exact ⟨hfree, by decide⟩

end Header

theorem Body.member {gap owner t : Text} {m : Member} (hgap : blank gap = true) (hm : m.WellFormed)
    (howner : isName owner = true) (ht : Body t) : Body (gap ++ m.text owner ++ t) := by
  rw [List.append_assoc]
  refine .plain_append (all_isPlain_of_blank hgap) ?_
  cases m with
  | method result name params body =>
    obtain ⟨hresult, hname, hparams, hbody⟩ := hm
    have hhead := all_isPlain_memberHeader hresult.leadChars hname hparams
    cases body with
    | none =>
      rw [Member.text, List.append_assoc]
      exact .plain_append hhead (.plain_append (s := [';']) (by decide) ht)
    | some body =>
      have h := Body.plain_append hhead
        (.plain_append (s := [' ']) (by decide) (.block (hbody body rfl) ht))
      simpa [Member.text] using h
  | constructor params body =>
    obtain ⟨hparams, hbody⟩ := hm
    have hhead := all_isPlain_memberHeader List.all_nil howner hparams
    have h := Body.plain_append hhead (.plain_append (s := [' ']) (by decide) (.block hbody ht))
    simpa [Member.text] using h
  | field type name value =>
    obtain ⟨htype, hname, hvalue⟩ := hm
    rw [Member.text, List.append_assoc]
    exact .plain_append (all_isPlain_fieldHeader htype hname hvalue)
      (.plain_append (s := [';']) (by decide) ht)

theorem entries_memberHeader_block {gap owner lead name params body : Text} {e : Entry}
    (hgap : blank gap = true) (hname : isName name = true) (hparams : IsParameters params)
    (hchars : lead.all isTypeChar = true) (hlead : IsLead lead)
    (hwords : ∀ w ∈ typeWords, ¬ HasWord w lead) (hbody : Body body)
    (hmember : member? owner (gap ++ (memberHeader lead name params ++ [' '])) = some e) (t : Text) :
    entries (some owner) (gap ++ (memberHeader lead name params ++ " \x7b".toList ++ body ++ ['}']) ++ t) =
      e :: entries (some owner) t := by
  have hheader := (isHeader_memberHeader hgap hchars hname hparams).append
    (isHeader_of_all (s := [' ']) (by decide))
  rw [List.append_assoc] at hheader
  have hnone := typeName?_memberHeader hgap (show blank [' '] = true from rfl) hname hparams hlead hwords
  have h := entries_block hheader hbody (some owner) t
  simp only [chunkEntries, hnone, Option.bind_some, hmember] at h
  simpa using h

/-- The entries of a body that starts with a member: what the member declares, then the rest. -/
theorem entries_member {gap owner : Text} {m : Member} (hgap : blank gap = true) (hm : m.WellFormed)
    (howner : isName owner = true) (t : Text) :
    entries (some owner) (gap ++ m.text owner ++ t) =
      (m.entry? owner).toList ++ entries (some owner) t := by
  cases m with
  | method result name params body =>
    obtain ⟨hresult, hname, hparams, hbody⟩ := hm
    cases body with
    | none =>
      have hmember := member?_method hgap blank_nil hname hparams hresult owner
      rw [List.append_nil] at hmember
      have h := entries_statement (isHeader_memberHeader hgap hresult.leadChars hname hparams)
        (some owner) t
      rw [chunkEntries, Option.bind_some, hmember] at h
      simpa [Member.text, Member.entry?] using h
    | some body =>
      exact entries_memberHeader_block hgap hname hparams hresult.leadChars hresult.isLead
        hresult.not_hasWord (hbody body rfl) (member?_method hgap rfl hname hparams hresult owner) t
  | constructor params body =>
    obtain ⟨hparams, hbody⟩ := hm
    exact entries_memberHeader_block hgap howner hparams List.all_nil isLead_nil
      (fun w hw => not_hasWord_nil (isWordRun_typeWords w hw)) hbody
      (member?_constructor hgap rfl howner hparams) t
  | field type name value =>
    obtain ⟨htype, hname, hvalue⟩ := hm
    have h := entries_statement (isHeader_fieldHeader hgap htype hname hvalue) (some owner) t
    rw [chunkEntries, Option.bind_some, member?_fieldHeader hgap htype hname] at h
    simpa [Member.text, Member.entry?] using h

/-! ## Trees -/

theorem isHeader_typeHeader {gap name : Text} (hgap : blank gap = true) (kind : TypeKind)
    (hname : isName name = true) : IsHeader (gap ++ typeHeader kind name) := by
  refine isHeader_of_all ?_
  have hword : kind.word.toList.all isHeaderChar = true := by cases kind <;> decide
  have hspace : isHeaderChar ' ' = true := by decide
  rw [List.all_append, typeHeader, List.all_append, List.all_cons, List.all_append,
    all_isHeaderChar_of_blank hgap, hword, hspace, all_isHeaderChar_of_isName hname]
  decide

theorem all_isPlain_typeHeader {name : Text} (kind : TypeKind) (hname : isName name = true) :
    (typeHeader kind name).all isPlain = true := by
  have hword : kind.word.toList.all isPlain = true := by cases kind <;> decide
  have hspace : isPlain ' ' = true := by decide
  rw [typeHeader, List.all_append, List.all_cons, List.all_append, hword, hspace,
    all_isPlain_of_isName hname]
  decide

/-- Members close every brace they open. -/
theorem body_text_append {owner : Text} (howner : isName owner = true) {ms : Members}
    (h : ms.WellFormed) {t : Text} (ht : Body t) : Body (ms.text owner ++ t) := by
  induction ms generalizing owner t with
  | nil gap => exact .plain_append (all_isPlain_of_blank h) ht
  | member gap m rest ih =>
    rw [Members.text, List.append_assoc]
    exact .member h.1 h.2.1 howner (ih howner h.2.2 ht)
  | nested gap kind name inner rest ihinner ihrest =>
    obtain ⟨hgap, hname, hinner, hrest⟩ := h
    have hinside := ihinner hname hinner .nil
    rw [List.append_nil] at hinside
    have hblock := Body.block hinside (ihrest howner hrest ht)
    have hall := Body.plain_append (all_isPlain_of_blank hgap)
      (.plain_append (all_isPlain_typeHeader kind hname) hblock)
    simpa [Members.text] using hall

/-- What stands in the braces of a type closes every brace it opens. -/
theorem body_text {owner : Text} (howner : isName owner = true) {ms : Members} (h : ms.WellFormed) :
    Body (ms.text owner) := by
  have hall := body_text_append howner h .nil
  rwa [List.append_nil] at hall

theorem chunkEntries_type {gap name : Text} (hgap : blank gap = true) (kind : TypeKind)
    (hname : isName name = true) (owner : Option Text) (body : Text) :
    chunkEntries owner (.block (gap ++ typeHeader kind name) body) =
      .type name :: entries (some name) body := by
  simp only [chunkEntries, typeHeader,
    typeName?_type hgap (word_mem_typeWords kind) (isDollarName_of_isName hname)]

/-- The entries of a type body that starts with members: what they declare, then the rest, which begins
    with the blanks behind them. -/
theorem entries_text_append {owner : Text} (howner : isName owner = true) {ms : Members}
    (h : ms.WellFormed) (t : Text) : entries (some owner) (ms.text owner ++ t) =
      ms.preorder owner ++ entries (some owner) (ms.lastGap ++ t) := by
  induction ms generalizing owner t with
  | nil gap => rfl
  | member gap m rest ih =>
    rw [Members.text, List.append_assoc, entries_member h.1 h.2.1 howner, ih howner h.2.2,
      Members.preorder, List.append_assoc]
    rfl
  | nested gap kind name inner rest ihinner ihrest =>
    obtain ⟨hgap, hname, hinner, hrest⟩ := h
    have hinside := ihinner hname hinner []
    rw [List.append_nil, List.append_nil,
      entries_of_header (all_isHeaderChar_of_blank hinner.lastGap), List.append_nil] at hinside
    have hblock := entries_block (isHeader_typeHeader hgap kind hname) (body_text hname hinner)
      (some owner) (rest.text owner ++ t)
    rw [chunkEntries_type hgap kind hname, hinside, ihrest howner hrest] at hblock
    simpa [Members.text, Members.preorder, Members.lastGap] using hblock

/-- The entries of a type body are what its members declare. -/
theorem entries_text {owner : Text} (howner : isName owner = true) {ms : Members}
    (h : ms.WellFormed) : entries (some owner) (ms.text owner) = ms.preorder owner := by
  have hall := entries_text_append howner h []
  rwa [List.append_nil, List.append_nil, entries_of_header (all_isHeaderChar_of_blank h.lastGap),
    List.append_nil] at hall

/-- A source written from a tree of types yields the types and their methods and constructors in the
    order in which they stand, each member with the innermost type around it. -/
theorem fragments_text {t : TypeTree} (h : t.WellFormed) (hblock : ¬ "/*".toList <:+: t.text)
    (hline : ¬ "//".toList <:+: t.text) :
    Language.java.fragments t.text = distinct (t.preorder.map Entry.fragment) := by
  obtain ⟨hname, hmembers⟩ := h
  have hentries : entries none t.text = t.preorder := by
    have h := entries_block (isHeader_typeHeader blank_nil t.kind hname) (body_text hname hmembers)
      none []
    rw [chunkEntries_type rfl t.kind hname, entries_text hname hmembers, entries_of_header (t := []) rfl,
      List.append_nil] at h
    rw [TypeTree.text, List.append_assoc]
    exact h
  rw [Language.fragments, fragments, CommentStyle.strip_slashes_eq_self hblock hline, hentries]

/-- A class with a constructor, a field, an abstract method and, in a type of its own, a method whose
    body has a brace in a literal. -/
def nestedTree : TypeTree where
  kind := .ofClass
  name := "A".toList
  members :=
    .member " ".toList (.constructor "int n".toList " { } ".toList) <|
    .member " ".toList (.field "int".toList "n".toList (some "f(0)".toList)) <|
    .member " ".toList (.method "List<T>".toList "m".toList "".toList none) <|
    .nested "\n ".toList .ofInterface "B".toList
      (.member " ".toList
        (.method "void".toList "p".toList "int x, T y".toList (some " q(\"\x7d\"); ".toList))
        (.nil " ".toList)) <|
    .nil "\n".toList

theorem nestedTree_wellFormed : nestedTree.WellFormed := by
  have hconstructor : Body " { } ".toList :=
    .plain_append (s := " ".toList) (by decide)
      (.block (.plain_append (s := " ".toList) (by decide) .nil)
        (.plain_append (s := " ".toList) (by decide) .nil))
  have hmethod : Body " q(\"\x7d\"); ".toList :=
    .plain_append (s := " q(".toList) (by decide)
      (.literal (s := "\x7d\"".toList) (show isQuote '"' = true from rfl)
        (.plain (by decide) (by decide) (by decide) .close) (by decide)
        (.plain_append (s := "); ".toList) (by decide) .nil))
  have hlist : IsResult "List<T>".toList :=
    ⟨by decide, by decide, by decide, by decide, by decide +kernel⟩
  have hvoid : IsResult "void".toList :=
    ⟨by decide, by decide, by decide, by decide, by decide +kernel⟩
  refine ⟨by decide, by decide, ⟨⟨by decide, by decide, by decide⟩, hconstructor⟩,
    by decide, ⟨by decide, by decide, ?_⟩,
    by decide, ⟨hlist, by decide, ⟨by decide, by decide, by decide⟩, by simp⟩,
    by decide, by decide,
    ⟨by decide, ⟨hvoid, by decide, ⟨by decide, by decide, by decide⟩, ?_⟩, rfl⟩, rfl⟩
  · rintro v ⟨⟩
    exact ⟨by decide, by decide⟩
  · rintro b ⟨⟩
    exact hmethod

theorem fragments_text_nestedTree :
    nestedTree.text = ("class A \x7b A(int n) \x7b \x7b \x7d \x7d int n = f(0); List<T> m();\n " ++
        "interface B \x7b void p(int x, T y) \x7b q(\"\x7d\"); \x7d \x7d\n\x7d").toList ∧
      Language.java.fragments nestedTree.text =
        ["class A".toList, "A(int n) @class:A".toList, "List<T> m() @class:A".toList,
          "class B".toList, "void p(int x, T y) @class:B".toList] := by
  refine ⟨by decide +kernel, ?_⟩
  rw [fragments_text nestedTree_wellFormed (by decide +kernel) (by decide +kernel)]
  decide +kernel

end Synopsis.Java
