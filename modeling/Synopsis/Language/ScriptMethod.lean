import Synopsis.Comment
import Synopsis.Fragment
import Synopsis.Language.ScriptBinding

/-!
# TypeScript and JavaScript: methods

The methods that stand directly in the braces of a top-level class. A method starts a line or follows
a semicolon: decorators, modifiers, a name, type parameters, an optional question mark and a
parenthesis. Where the words can be read in several ways, decorators take as much as they can, and a
modifier that nothing else could name is itself the name.
-/

namespace Synopsis.Script

open Text

/-! ## Readers -/

/-- The words that may stand before the name of a method. -/
def modifiers : List String :=
  ["public", "private", "protected", "static", "async", "readonly", "override", "abstract", "get",
    "set"]

/-- A method name up to and with its opening parenthesis. -/
def methodName? (p : Place) (isAsync : Bool) (t : Text) : Option (Head × Text) := do
  let (sign, rest) := match char? '#' t with
    | some rest => (['#'], rest)
    | none => ([], t)
  let (name, rest) ← dollarName? rest
  let (own, rest) := typeParameters rest
  let rest ← char? '(' (trimStart ((char? '?' rest).getD rest))
  return ({ isAsync, name := sign ++ name, nameOffset := p.offsetOf t, generics := own }, rest)

/-- The modifier at the front of a text and what follows it. -/
def modifier? (t : Text) : Option (String × Text) :=
  modifiers.findSome? fun w => (keyword? w t).map (w, ·)

/-- A modifier takes at least the blank after it. -/
theorem length_lt_of_modifier? {t rest : Text} {w : String} (h : modifier? t = some (w, rest)) :
    rest.length < t.length := by
  obtain ⟨_, _, hk⟩ := List.exists_of_findSome?_eq_some h
  obtain ⟨r, hr, he⟩ := Option.map_eq_some_iff.1 hk
  cases he
  exact length_lt_of_keyword? hr

/-- Modifiers and a method name: as many modifiers as leave a name to read. -/
def modifiedName? (p : Place) (isAsync : Bool) (t : Text) : Option (Head × Text) :=
  match _h : modifier? t with
  | some (w, rest) =>
    (modifiedName? p (isAsync || w == "async") rest).or (methodName? p isAsync t)
  | none => methodName? p isAsync t
termination_by t.length
decreasing_by exact length_lt_of_modifier? _h

/-- Whether a character may occur in the name of a decorator. -/
def isDecoratorChar (c : Char) : Bool := isWord c || c == '.'

/-- What follows the arguments of a decorator, if it has any on the same line. -/
def afterArguments? (t : Text) : Option Text :=
  ((char? '(' t).map (·.dropWhile fun c => c ≠ ')' && c ≠ '\n')).bind (char? ')')

/-- A decorator at the front of a text: its name and the text after its arguments and blanks. -/
def decorator? (t : Text) : Option (Text × Text) := do
  let (name, rest) ← run? isDecoratorChar (← char? '@' t)
  return (name, trimStart ((afterArguments? rest).getD rest))

/-- Arguments take at least their parentheses. -/
theorem length_lt_of_afterArguments? {t rest : Text} (h : afterArguments? t = some rest) :
    rest.length < t.length := by
  obtain ⟨u, hu, hclose⟩ := Option.bind_eq_some_iff.1 h
  obtain ⟨v, hopen, rfl⟩ := Option.map_eq_some_iff.1 hu
  have hdrop : (v.dropWhile fun c => c ≠ ')' && c ≠ '\n').length ≤ v.length :=
    (List.dropWhile_sublist _).length_le
  have := length_lt_of_char? hopen
  have := length_lt_of_char? hclose
  omega

/-- A decorator takes at least its at sign. -/
theorem length_lt_of_decorator? {t name rest : Text} (h : decorator? t = some (name, rest)) :
    rest.length < t.length := by
  obtain ⟨u, hu, hrest⟩ := Option.bind_eq_some_iff.1 h
  obtain ⟨⟨r, v⟩, hrun, he⟩ := Option.bind_eq_some_iff.1 hrest
  obtain ⟨rfl, rfl⟩ := Prod.mk.inj (Option.some.inj he)
  have := length_lt_of_char? hu
  have := length_lt_of_run? hrun
  have htrim := length_trimStart_le ((afterArguments? v).getD v)
  cases hargs : afterArguments? v with
  | none =>
    simp only [hargs, Option.getD_none] at htrim ⊢
    omega
  | some w =>
    have := length_lt_of_afterArguments? hargs
    simp only [hargs, Option.getD_some] at htrim ⊢
    omega

/-- Decorators and a modified name. When nothing can be read behind a whole decorator, its name may
    end earlier and leave its last letters to what follows. -/
def decoratedName? (p : Place) (t : Text) : Option (Head × Text) :=
  match _h : decorator? t with
  | none => modifiedName? p false t
  | some (name, rest) =>
    (decoratedName? p rest).or
      (((List.range name.length).drop 1).reverse.findSome? fun k =>
        modifiedName? p false (t.drop (k + 1)))
termination_by t.length
decreasing_by exact length_lt_of_decorator? _h

/-- A method at a place: the start of a line or a semicolon, then a decorated name. -/
def methodAt? (p : Place) : Option (Head × Text) :=
  let read (t : Text) := decoratedName? p (trimStart t)
  let first := if p.prev.isNone then read p.rest else none
  first.or (match p.rest with
    | c :: cs => if c = '\n' || c = '\r' || c = ';' then read cs else none
    | [] => none)

/-! ## Classes -/

/-- A class: its name and the text between its braces. -/
def classAt? (p : Place) : Option ((Text × Text) × Text) :=
  if !p.isWordStart then none
  else do
    let (name, t) ← (keyword? "class" p.rest).bind dollarName?
    let t ← ahead? '{' (t.dropWhile fun c => c ≠ '{' && c ≠ ';')
    let (block, rest) := braces t
    return ((name, unwrap block), rest)

/-- Words that a parenthesis may follow at the start of a line without declaring a method. -/
def notMethods : List Text :=
  ["if", "for", "while", "switch", "catch", "return", "function", "typeof", "new", "await", "yield",
    "super", "do", "else", "try"].map String.toList

/-- The method whose head was just read with its opening parenthesis. A constructor keeps neither
    modifiers nor an annotation. -/
def methodEntry (owner : Text) (s : Site Head) : Entry :=
  let (params, rest) := parens ('(' :: s.rest)
  if s.found.name = "constructor".toList then
    .callable false s.found.name [] params none (some owner)
  else
    .callable s.found.isAsync s.found.name s.found.generics params
      (nonempty? (returnText rest)) (some owner)

/-- The methods of a class body: those whose name stands outside braces and groups. -/
def methods (owner body : Text) : List Entry :=
  let depths := braceDepths body
  let groups := groupDepths body
  ((sites methodAt? body).filter fun s =>
    !notMethods.contains s.found.name && topLevelAt depths s.found.nameOffset &&
      topLevelAt groups s.found.nameOffset).map (methodEntry owner)

/-- The methods of the top-level classes of a text without comments. -/
def classMethods (t : Text) : List Entry :=
  let depths := braceDepths t
  ((sites classAt? t).filter fun s => topLevelAt depths s.start).flatMap fun s =>
    methods s.found.1 s.found.2

/-! ## Sources -/

/-- The declarations of a source text: functions, bindings, then methods. -/
def fragments (source : Text) : List Text :=
  let t := CommentStyle.slashes.strip source
  distinct ((bindings t ++ classMethods t).map Entry.fragment)

end Synopsis.Script
