import Synopsis.Comment
import Synopsis.Fragment
import Synopsis.Language.JavaChunk
import Synopsis.Scan.Site

/-!
# Java: types and members

The type declarations of a source in the order of their headers, each followed by the methods and
constructors of its body. A header is a member of the innermost type around it when a closed
parameter list follows its name and only a `throws` or `default` clause may come after.
-/

namespace Synopsis.Java

open Text

/-- A located declaration: a type, or a member of a type with its parameters on one line. A member
    without return type is a constructor. -/
inductive Entry where
  | type (name : Text)
  | member (returnType : Option Text) (name parameters owner : Text)
deriving DecidableEq, Repr

/-- An entry written on one line. -/
def Entry.fragment : Entry → Text
  | .type name => "class ".toList ++ name
  | .member returnType name params owner =>
    (returnType.map (· ++ [' '])).getD [] ++ name ++ '(' :: params ++ ") @class:".toList ++ owner

/-! ## Annotations -/

/-- What follows a parenthesised group, of which the opening parenthesis was just read, if no
    parentheses nest more than one level deep inside it; `deep` tells that one inner pair is open. -/
def afterArguments? : (deep : Bool) → Text → Option Text
  | _, [] => none
  | deep, c :: cs =>
    if c = '(' then if deep then none else afterArguments? true cs
    else if c = ')' then if deep then afterArguments? false cs else some cs
    else afterArguments? deep cs

/-- What follows an annotation at a place: its dotted name and, where they can be read, its
    arguments. The keyword of an annotation type is none. -/
def annotationAt? (p : Place) : Option Text := do
  let t ← char? '@' p.rest
  if (wholeWord? "interface" t).isSome then none
  else
    let t ← skip1? (fun c => isDollarWord c || c == '.') t
    return ((char? '(' (trimStart t)).bind (afterArguments? false)).getD t

/-- Writes a space for every annotation. -/
def stripAnnotations (t : Text) : Text := replaceAll annotationAt? [' '] t

/-! ## Headers -/

/-- A type keyword and the name after it. -/
def typeAt? (p : Place) : Option (Text × Text) :=
  if p.isWordStart then
    (["class", "interface", "enum", "record"].findSome? (keyword? · p.rest)).bind dollarName?
  else none

/-- The type that a header declares: one named before any parenthesis and outside an assignment. -/
def typeName? (header : Text) : Option Text :=
  let t := before '(' (stripAnnotations header)
  if t.contains '=' then none else (firstSite? typeAt? t).map (·.found)

/-- The words that may stand before the type of a member. -/
def modifiers : List String :=
  ["public", "protected", "private", "static", "final", "abstract", "synchronized", "native",
    "default", "strictfp", "transient", "volatile", "sealed", "non-sealed"]

/-- A modifier or a list of type parameters at the front of a text, and what follows it. -/
def afterModifier? (t : Text) : Option Text :=
  match modifiers.findSome? (wholeWord? · t) with
  | some rest => some (trimStart rest)
  | none => if t.head? = some '<' then some (trimStart (balanced '<' '>' t).2) else none

/-- Every modifier is a word of at least one character. -/
theorem length_lt_of_afterModifier? {t rest : Text} (h : afterModifier? t = some rest) :
    rest.length < t.length := by
  rw [afterModifier?] at h
  split at h
  · next r hr =>
    obtain ⟨w, hw, hword⟩ := List.exists_of_findSome?_eq_some hr
    obtain ⟨hafter, _⟩ := Option.filter_eq_some_iff.1 hword
    have hlen := congrArg List.length (after?_eq_some.1 hafter)
    have hpos := (by decide : ∀ w ∈ modifiers, 0 < w.toList.length) w hw
    have htrim := length_trimStart_le r
    cases h
    simp only [List.length_append] at hlen
    omega
  · split at h
    · next hopen =>
      cases h
      have htrim := length_trimStart_le (balanced '<' '>' t).2
      have hlen := congrArg List.length (balanced_append '<' '>' t)
      have hpos : 0 < (balanced '<' '>' t).1.length := by
        match t, hopen with
        | c :: cs, hopen =>
          obtain rfl : c = '<' := by simpa using hopen
          simp [balanced, spanFrom, keep]
      simp only [List.length_append] at hlen
      omega
    · cases h

/-- Drops modifiers and type parameters from the front of a text. -/
def skipModifiers (t : Text) : Text :=
  match _h : afterModifier? t with
  | some rest => skipModifiers rest
  | none => t
termination_by t.length
decreasing_by exact length_lt_of_afterModifier? _h

/-- Splits a text into what precedes the name at its end, trimmed, and that name. -/
def splitName? (t : Text) : Option (Text × Text) :=
  let t := trimEnd t
  let name := (takeTrailing isDollarWord t).dropWhile (!isDollarStart ·)
  if name.isEmpty then none else some (trim (t.take (t.length - name.length)), name)

/-- Whether a character may occur in a return type. -/
def isTypeChar (c : Char) : Bool :=
  isDollarWord c || isBlank c || ".<>[],?&".toList.contains c

/-- The member that a header declares for its owner. -/
def member? (owner : Text) (header : Text) : Option Entry := do
  let t := trim (stripAnnotations header)
  let head := before '(' t
  if head.contains '=' then none
  else
    let (params, rest) ← group? (t.drop head.length)
    let tail := trim rest
    if !tail.isEmpty && (after? "throws".toList tail).isNone && (after? "default".toList tail).isNone
    then none
    else
      let (lead, name) ← splitName? head
      let returnType := collapse (skipModifiers lead)
      if returnType.isEmpty then
        if name = owner then some (.member none name (collapse params) owner) else none
      else if returnType.all isTypeChar then
        some (.member (some returnType) name (collapse params) owner)
      else none

/-! ## Sources -/

/-- The entries of a type body; the text around all types has no owner and so no members. -/
def entries (owner : Option Text) (t : Text) : List Entry :=
  (chunks t).attach.flatMap fun ⟨chunk, hmem⟩ =>
    match chunk, hmem with
    | .statement header, _ => (owner.bind (member? · header)).toList
    | .block header body, _ => match typeName? header with
      | some name => .type name :: entries (some name) body
      | none => (owner.bind (member? · header)).toList
termination_by t.length
decreasing_by exact length_lt_of_mem_chunks ‹_›

/-- The types and members of a source text. -/
def fragments (source : Text) : List Text :=
  distinct ((entries none (CommentStyle.slashes.strip source)).map Entry.fragment)

end Synopsis.Java
