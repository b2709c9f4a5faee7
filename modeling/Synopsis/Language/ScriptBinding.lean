import Synopsis.Nesting.Depth
import Synopsis.Scan.Site

/-!
# TypeScript and JavaScript: functions and bindings

What a module declares at its top level, outside all braces: `function` declarations, constants bound
to arrow functions, constants bound to a component with a forwarded reference, and constants that
rename a member of another object. A declaration starts a line, blanks apart.
-/

namespace Synopsis.Script

open Text

/-- A located declaration. `parameters` keeps its parentheses; a list that never closes runs to the
    end of the text. -/
inductive Entry where
  | callable (isAsync : Bool) (name generics parameters : Text) (returns owner : Option Text)
  | arrow (isExported isAsync : Bool) (name parameters : Text) (returns : Option Text)
deriving DecidableEq, Repr

/-- The marker that carries the owner of a method. -/
def ownerMarker (owner : Text) : Text := "@class:".toList ++ owner

/-- An entry written as a fragment. -/
def Entry.fragment : Entry → Text
  | .callable isAsync name own params returns owner =>
    (if isAsync then "async ".toList else []) ++ name ++ own ++ params ++
      (returns.map (": ".toList ++ ·)).getD [] ++ (owner.map fun o => ' ' :: ownerMarker o).getD []
  | .arrow isExported isAsync name params returns =>
    (if isExported then "export const ".toList else "const ".toList) ++ name ++ " = ".toList ++
      (if isAsync then "async ".toList else []) ++ params ++
      (returns.map (": ".toList ++ ·)).getD [] ++ " =>".toList

/-! ## Readers -/

/-- A head that was read: its flags, its name, where the name stands and the generics after it. -/
structure Head where
  isExported : Bool := false
  isAsync : Bool := false
  name : Text
  nameOffset : Nat
  generics : Text := []

/-- What follows the start of a line: the start of the text, or a line end, and then blanks. -/
def lineLead? (p : Place) : Option Text :=
  match p.prev, p.rest with
  | none, t => some (trimStart t)
  | some _, c :: cs => if c = '\n' || c = '\r' then some (trimStart cs) else none
  | some _, [] => none

/-- Type parameters up to the first closing angle bracket, if there are any. -/
def typeParameters (t : Text) : Text × Text :=
  match (char? '<' t).bind (run? (· ≠ '>')) with
  | some (params, '>' :: rest) => ('<' :: params ++ ['>'], rest)
  | _ => ([], t)

/-- What follows the word `function`: blanks, or a star with blanks around it. -/
def afterFunction? (t : Text) : Option Text := do
  let t ← after? "function".toList t
  ((char? '*' (trimStart t)).map trimStart).or (skip1? isBlank t)

/-- A `function` declaration up to and with its opening parenthesis. -/
def functionAt? (p : Place) : Option (Head × Text) := do
  let (isExported, t) := flag "export" (← lineLead? p)
  let (isAsync, t) := flag "async" (skipKeyword ["default"] t)
  let t ← afterFunction? t
  let (name, rest) ← dollarName? t
  let (own, rest) := typeParameters rest
  let rest ← char? '(' (trimStart rest)
  return ({ isExported, isAsync, name, nameOffset := p.offsetOf t, generics := own }, rest)

/-- A constant up to its name. -/
def constant? (p : Place) (lead : Text) : Option (Head × Text) := do
  let (isExported, t) := flag "export" lead
  let t ← keyword? "const" t
  let (name, rest) ← dollarName? t
  return ({ isExported, name, nameOffset := p.offsetOf t }, rest)

/-- Skips a type annotation that ends at an equals sign on the same line. -/
def skipType (t : Text) : Text :=
  (do let (_, rest) ← run? (fun c => c ≠ '=' && c ≠ '\n') (← char? ':' t)
      ahead? '=' rest).getD t

/-- A constant bound to a parenthesis, which it reads too. -/
def arrowAt? (p : Place) : Option (Head × Text) := do
  let (head, t) ← constant? p (← lineLead? p)
  let t ← char? '=' (skipType (trimStart t))
  let (isAsync, t) := flag "async" (trimStart t)
  let t ← char? '(' t
  return ({ head with isAsync }, t)

/-- A constant bound to a call that forwards a reference, up to the arguments of that call. -/
def forwardRefAt? (p : Place) : Option (Head × Text) := do
  let (head, t) ← constant? p (← lineLead? p)
  let t := trimStart (← char? '=' (trimStart t))
  let t ← after? "forwardRef".toList ((after? "React.".toList t).getD t)
  return (head, trimStart t)

/-- A constant bound to names joined by dots, with nothing more in its statement. -/
def memberBinding? (p : Place) (lead : Text) : Option (Head × Text) := do
  let (head, t) ← constant? p lead
  let t := trimStart (← char? '=' (trimStart t))
  let (chain, rest) ← run? (fun c => isDollarWord c || c == '.') t
  let names := chain.splitOn '.'
  let next := (rest.dropWhile isIndent).head?
  let ends := next.all fun c => c == ';' || c == '\n' || c == '\r'
  if names.length ≥ 2 && names.all isDollarName && ends then some (head, rest) else none

/-- A renaming constant at the start of a line, behind tabs and spaces only. -/
def aliasAt? (p : Place) : Option (Head × Text) :=
  let first := if p.prev.isNone then memberBinding? p (p.rest.dropWhile isIndent) else none
  first.or (match p.rest with
    | c :: cs => if c = '\n' || c = '\r' then memberBinding? p (cs.dropWhile isIndent) else none
    | [] => none)

/-! ## Return types -/

/-- The annotation after a parameter list: after a colon, up to an equals sign, a brace, a semicolon
    or the end of the line. -/
def returnText (t : Text) : Text :=
  match char? ':' (trimStart t) with
  | some t => trim ((trimStart t).takeWhile fun c => c ≠ '=' && c ≠ '{' && c ≠ ';' && c ≠ '\n')
  | none => []

/-- The annotation between a colon and an arrow. It has at least one character, if only a blank on
    the line of the colon, and none of those that `stops` names. -/
def arrowType? (stops : Char → Bool) (t : Text) : Option Text := do
  let t ← char? ':' (trimStart t)
  let type := (trimStart t).takeWhile (!stops ·)
  let _ ← after? "=>".toList (trimStart ((trimStart t).dropWhile (!stops ·)))
  if !type.isEmpty || (t.takeWhile isBlank).any (· ≠ '\n') then some (trim type) else none

/-- The annotation before the arrow that must follow a parameter list, empty when there is none. -/
def arrowTail? (t : Text) : Option Text :=
  (arrowType? (fun c => c == '=' || c == ';' || c == '\n') t).or
    ((after? "=>".toList (trimStart t)).map fun _ => [])

/-- The annotation before the arrow of a component. -/
def componentTail (t : Text) : Text :=
  (arrowType? (fun c => c == '=' || c == ')' || c == '\n') t).getD []

/-! ## Declarations -/

/-- The function whose head was just read with its opening parenthesis. -/
def functionEntry (s : Site Head) : Entry :=
  let (params, rest) := parens ('(' :: s.rest)
  .callable s.found.isAsync s.found.name s.found.generics params
    (nonempty? (returnText rest)) none

/-- The arrow function bound by a constant, unless the parenthesis only groups an expression. -/
def arrowEntry? (s : Site Head) : Option Entry := do
  let (params, rest) := parens ('(' :: s.rest)
  let returns ← arrowTail? rest
  return .arrow s.found.isExported s.found.isAsync s.found.name params (nonempty? returns)

/-- The component bound by a constant: the first parameter list in the arguments of the call. -/
def componentEntry? (s : Site Head) : Option Entry := do
  let (args, _) := parens (trimStart (balanced '<' '>' s.rest).2)
  let (params, rest) := parens ((unwrap args).dropWhile (· ≠ '('))
  if params.isEmpty then none
  else some (.arrow false false s.found.name params (nonempty? (componentTail rest)))

/-- A renaming constant counts as an arrow function without parameters. -/
def aliasEntry (s : Site Head) : Entry := .arrow false false s.found.name "()".toList none

/-- The top-level functions and bindings of a text without comments, kind by kind. -/
def bindings (t : Text) : List Entry :=
  let depths := braceDepths t
  let top (read : Place → Option (Head × Text)) : List (Site Head) :=
    (sites read t).filter fun s => topLevelAt depths s.found.nameOffset
  (top functionAt?).map functionEntry ++ (top arrowAt?).filterMap arrowEntry? ++
    (top forwardRefAt?).filterMap componentEntry? ++ (top aliasAt?).map aliasEntry

end Synopsis.Script
