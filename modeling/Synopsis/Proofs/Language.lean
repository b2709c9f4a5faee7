import Synopsis.Language
import Synopsis.Proofs.Comment
import Synopsis.Proofs.Nesting.Span
import Synopsis.Proofs.Text.Reader

/-!
# Where signatures come from

Extraction adds nothing of its own: a signature of a source is what one of the fragments of the source
is read as (`Language.mem_extract`), so whatever holds of every fragment that can be read holds of every
signature. What can be read is the same in all languages: the entry of a type, which is a bare name, or
a header with a parameter list, whose owner stands in the fragment (`Language.read_of_signature`).
Comments have no part in it: once they are removed none is left, and the text without them has the same
fragments (`Language.comments_removed`).
-/

namespace Synopsis

open Text

theorem toOption_eq_some {ε α : Type} {r : Except ε α} {a : α} : r.toOption = some a ↔ r = .ok a := by
  cases r <;> simp [Except.toOption]

/-- The signatures of a source are those of its fragments. -/
theorem Language.mem_extract {l : Language} {source : Text} {s : Signature} :
    s ∈ l.extract source ↔
      blank source = false ∧ ∃ f ∈ l.fragments source, l.signature f = .ok s := by
  rw [Language.extract, extractWith]
  cases blank source with
  | true => simp
  | false =>
    rw [if_neg Bool.false_ne_true, List.mem_filterMap, eq_self, true_and]
    exact exists_congr fun f => and_congr_right fun _ => toOption_eq_some

/-! ## Comments -/

/-- What counts as a comment in a language. -/
def Language.comments : Language → CommentStyle
  | .typescript | .go | .java | .rust => .slashes
  | .python => .hash
  | .php => .slashesAndHash

theorem Language.simple_comments (l : Language) : l.comments.Simple := by
  cases l with
  | python => exact CommentStyle.simple_hash
  | php => exact CommentStyle.simple_slashesAndHash
  | typescript | go | java | rust => exact CommentStyle.simple_slashes

/-- What is left of a text without its comments holds no comment, stays as it is when comments are
    removed again, and has the declarations of the text. -/
theorem Language.comments_removed (l : Language) (t : Text) :
    CommentStyle.CommentFree l.comments (l.comments.strip t) ∧
      l.comments.strip (l.comments.strip t) = l.comments.strip t ∧
      l.fragments (l.comments.strip t) = l.fragments t := by
  have hstrip := l.simple_comments.strip_strip t
  refine ⟨l.simple_comments.commentFree_strip t, hstrip, ?_⟩
  -- a locator reads nothing but the text without its comments
  cases l <;> simp only [comments] at hstrip ⊢
  case typescript => simp only [fragments, Script.fragments, hstrip]
  case go => simp only [fragments, Go.fragments, hstrip]
  case java => simp only [fragments, Java.fragments, hstrip]
  case python => simp only [fragments, Python.fragments, hstrip]
  case rust => simp only [fragments, Rust.fragments, hstrip]
  case php => simp only [fragments, Php.fragments, hstrip]

/-! ## The parts of a fragment -/

/-- The receiver of a declaration. -/
def Go.receiver? (fragment : Text) : Option Text := do
  let t ← after? "func".toList (trim fragment)
  present? (leading '(' ')' (trim t)).1

/-- A declaration from the opening parenthesis of its parameters on. -/
def Go.list? (fragment : Text) : Option Text := do
  let t ← after? "func".toList (trim fragment)
  let (_, t) ← name? (leading '(' ')' (trim t)).2
  ahead? '(' (leading '[' ']' (trim t)).2

/-- A header from the opening parenthesis of its parameters on. -/
def Python.list? (fragment : Text) : Option Text := do
  let (_, t) ← (keyword? "def" (flag "async" (trim fragment)).2).bind word?
  ahead? '(' (trimStart t)

/-- An item from the opening parenthesis of its parameters on. -/
def Rust.list? (fragment : Text) : Option Text := do
  let (_, t) ← (keyword? "fn" (flag "async" (trim fragment)).2).bind path?
  ahead? '(' (generics (trimStart t)).2

/-- A function from the opening parenthesis of its parameters on; the entry of a type has none. -/
def Php.list? (fragment : Text) : Option Text :=
  if (typeName? (trim fragment)).isSome then none
  else do
    let (_, t) ← (keyword? "function" (splitOwner (trim fragment)).1).bind name?
    ahead? '(' (trimStart t)

/-- A member from the opening parenthesis of its parameters on; the entry of a type has none. -/
def Java.list? (fragment : Text) : Option Text :=
  if (after? "class ".toList (trim fragment)).isSome then none
  else
    let t := (splitOwner (trim fragment)).1
    (cutAt? '(' t).map fun (head, _) => t.drop head.length

/-- The parameters of a constant bound to an arrow, with all that follows. -/
def Script.arrowList? (fragment : Text) : Option Text :=
  (arrowHead? (trim (splitOwner fragment).1)).map Prod.snd

/-- A declaration from the opening parenthesis of its parameters on. -/
def Script.list? (fragment : Text) : Option Text :=
  (arrowList? fragment).or ((header? (trim (splitOwner fragment).1)).map Prod.snd)

namespace Language

/-- A fragment from the opening parenthesis of its parameter list on. -/
def list? : Language → Text → Option Text
  | .typescript => Script.list?
  | .go => Go.list?
  | .java => Java.list?
  | .python => Python.list?
  | .rust => Rust.list?
  | .php => Php.list?

/-- The owner that a fragment names. -/
def owner? : Language → Text → Option Text
  | .typescript, f => (Script.splitOwner f).2
  | .go, f => (Go.receiver? f).bind Go.receiverType
  | .java, f => (Java.splitOwner (trim f)).2
  | .php, f => (Php.splitOwner (trim f)).2
  | .python, _ => none
  | .rust, _ => none

/-- Whether a fragment binds an arrow, whose parameter list must be followed by the arrow. -/
def isArrow : Language → Text → Bool
  | .typescript, f => (Script.arrowList? f).isSome
  | _, _ => false

end Language

/-! ## What an accepted fragment was read from -/

/-- A declaration is a receiver, a name, type parameters and a parameter list in a row. -/
theorem Go.exists_of_signature {f : Text} {s : Signature} (h : signature f = .ok s) :
    ∃ t name u params rest, after? "func".toList (trim f) = some t ∧
      name? (leading '(' ')' (trim t)).2 = some (name, u) ∧
      group? (leading '[' ']' (trim u)).2 = some (params, rest) ∧
      s = {
        name := match (present? (leading '[' ']' (trim u)).1).or
            ((present? (leading '(' ')' (trim t)).1).bind receiverGenerics) with
          | some g => name ++ '[' :: g ++ [']']
          | none => name
        parameters := parameters params
        returnType := results (trim rest)
        className := (present? (leading '(' ')' (trim t)).1).bind receiverType } := by
  unfold signature at h
  simp only at h
  split at h
  · next t ht =>
    split at h
    · next name u hu =>
      split at h
      · cases h
      · split at h
        · next params rest hgroup =>
          cases h
          exact ⟨t, name, u, params, rest, ht, hu, hgroup, rfl⟩
        · cases h
    · cases h
  · cases h

theorem Go.read_of_signature {f : Text} {s : Signature} (h : signature f = .ok s) :
    s.className = (receiver? f).bind receiverType ∧ (list? f).isSome = true := by
  obtain ⟨t, name, u, params, rest, ht, hu, hgroup, rfl⟩ := exists_of_signature h
  constructor
  · simp only [receiver?, ht, Option.bind_eq_bind, Option.bind_some]
  · simp only [list?, ht, hu, Option.bind_eq_bind, Option.bind_some,
      ahead?_eq_some.2 ⟨rfl, head?_of_group? hgroup⟩]
    rfl

theorem Python.read_of_signature {f : Text} {s : Signature} (h : signature f = .ok s) :
    s.className = none ∧ (list? f).isSome = true := by
  unfold signature at h
  simp only at h
  split at h
  · next name t ht =>
    split at h
    · cases h
    · next hopen =>
      split at h
      · cases h
        refine ⟨rfl, ?_⟩
        simp only [list?, ht, Option.bind_eq_bind, Option.bind_some, ahead?_of_head? hopen]
        rfl
      · cases h
  · cases h

theorem Rust.read_of_signature {f : Text} {s : Signature} (h : signature f = .ok s) :
    s.className = none ∧ (list? f).isSome = true := by
  unfold signature at h
  simp only at h
  split at h
  · next name t ht =>
    split at h
    · next params rest hgroup =>
      cases h
      refine ⟨rfl, ?_⟩
      simp only [list?, ht, Option.bind_eq_bind, Option.bind_some,
        ahead?_eq_some.2 ⟨rfl, head?_of_group? hgroup⟩]
      rfl
    · cases h
  · cases h

theorem Php.read_of_signature {f : Text} {s : Signature} (h : signature f = .ok s) :
    (list? f = none ∧ s = { name := s.name }) ∨
      (s.className = (splitOwner (trim f)).2 ∧ (list? f).isSome = true) := by
  unfold signature at h
  simp only at h
  split at h
  · next name hname =>
    cases h
    left
    exact ⟨by rw [list?, hname]; rfl, rfl⟩
  · next hname =>
    split at h
    · next name t ht =>
      split at h
      · cases h
      · next hopen =>
        split at h
        · cases h
          right
          refine ⟨rfl, ?_⟩
          simp only [list?, Option.eq_none_iff_forall_ne_some.2 hname, ht, Option.bind_eq_bind,
            Option.bind_some, ahead?_of_head? hopen]
          rfl
        · cases h
    · cases h

theorem Java.read_of_signature {f : Text} {s : Signature} (h : signature f = .ok s) :
    (list? f = none ∧ s = { name := s.name }) ∨
      (s.className = (splitOwner (trim f)).2 ∧ (list? f).isSome = true) := by
  unfold signature at h
  simp only at h
  split at h
  · next name hname =>
    split at h
    · cases h
      left
      exact ⟨by rw [list?, hname]; rfl, rfl⟩
    · cases h
  · next hname =>
    split at h
    · next head t ht =>
      split at h
      · split at h
        · split at h
          · cases h
          · cases h
            right
            refine ⟨rfl, ?_⟩
            simp only [list?, Option.eq_none_iff_forall_ne_some.2 hname, ht]
            rfl
        · cases h
      · cases h
    · cases h

/-- A fragment binds an arrow, whose list is taken up to where it is closed or up to the end, or it is a
    header with a closed list. -/
theorem Script.cases_of_signature {f : Text} {s : Signature} (h : signature f = .ok s) :
    (∃ name isAsync t returnType, arrowHead? (trim (splitOwner f).1) = some ((name, isAsync), t) ∧
      arrowReturn? (parens t).2 = some returnType ∧
      s = { name, isAsync, className := (splitOwner f).2, returnType
            parameters := parameters (unwrap (parens t).1) }) ∨
    ∃ header t params rest, arrowHead? (trim (splitOwner f).1) = none ∧
      header? (trim (splitOwner f).1) = some (header, t) ∧ group? t = some (params, rest) ∧
      s = { name := header.name, isAsync := header.isAsync, className := (splitOwner f).2
            parameters := parameters params, returnType := returnType rest } := by
  unfold signature at h
  simp only at h
  split at h
  · next name isAsync t ht =>
    split at h
    · next returnType hreturn =>
      cases h
      exact .inl ⟨name, isAsync, t, returnType, ht, hreturn, rfl⟩
    · cases h
  · next harrow =>
    have hnone : arrowHead? (trim (splitOwner f).1) = none :=
      Option.eq_none_iff_forall_ne_some.2 fun _ hx => harrow _ _ _ hx
    split at h
    · next header t ht =>
      split at h
      · next params rest hgroup =>
        cases h
        exact .inr ⟨header, t, params, rest, hnone, ht, hgroup, rfl⟩
      · cases h
    · cases h

theorem Script.read_of_signature {f : Text} {s : Signature} (h : signature f = .ok s) :
    s.className = (splitOwner f).2 ∧ (list? f).isSome = true := by
  rcases cases_of_signature h with
    ⟨name, isAsync, t, returnType, ht, -, rfl⟩ | ⟨header, t, params, rest, -, ht, -, rfl⟩
  · refine ⟨rfl, ?_⟩
    simp only [list?, arrowList?, ht, Option.map_some, Option.some_or]
    rfl
  · refine ⟨rfl, ?_⟩
    simp only [list?, ht, Option.map_some, Option.isSome_or, Option.isSome_some, Bool.or_true]

/-- What is accepted is the bare name of a type, or it has a parameter list and the owner that the
    fragment names. -/
theorem Language.read_of_signature {l : Language} {f : Text} {s : Signature}
    (h : l.signature f = .ok s) :
    (l.list? f = none ∧ s = { name := s.name }) ∨
      (s.className = l.owner? f ∧ (l.list? f).isSome = true) := by
  cases l with
  | typescript => exact .inr (Script.read_of_signature h)
  | go => exact .inr (Go.read_of_signature h)
  | java => exact Java.read_of_signature h
  | python => exact .inr (Python.read_of_signature h)
  | rust => exact .inr (Rust.read_of_signature h)
  | php => exact Php.read_of_signature h

end Synopsis
