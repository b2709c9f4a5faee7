import Synopsis.Language.PythonHeader
import Synopsis.Language.PythonSignature
import Synopsis.Proofs.Offset.Nesting

/-!
# Python by offset

Headers are read from the offset at which their head ends, and a class body by looking up every
character behind its colon. Of the parameters of a signature the first is looked up, if there is one.
-/

namespace Synopsis.Offset.Python

open Text
open Synopsis.Python (Header ClassEntry functionAt? methodAt? classAt? defHead? returnText? returnType
  header? bodyFrom classBody classFragments)

/-! ## Locating -/

/-- The header whose head ends at an offset. -/
def headerAt (head : Bool × Text) (t : Text) (i : Nat) : Except Fault (Option Header) := do
  match ← groupAt t i with
  | some (params, stop) => return some ⟨head.1, head.2, collapse params, returnText? (t.drop stop)⟩
  | none => return none

/-- The offset of the brace that closes the last of `depth` open ones, or the end of the text. -/
def bodyEnd (t : Text) : (offsets : List Nat) → (depth : Int) → Except Fault Nat
  | [], _ => .ok t.length
  | i :: is, d => do
    let c ← look t i
    if c = '{' then bodyEnd t is (d + 1)
    else if c = '}' then if d - 1 = 0 then return i else bodyEnd t is (d - 1)
    else bodyEnd t is d

/-- The body of the class whose header goes on at an offset. -/
def bodyAt (t : Text) (start : Nat) : Except Fault Text := do
  match findAt ':' t start with
  | none => return []
  | some colon =>
    let stop ← bodyEnd t (List.range' (colon + 1) (t.length - (colon + 1))) 0
    return slice t (colon + 1) stop

/-- The headers of a text that a reader finds. -/
def headersBy (read : Place → Option ((Bool × Text) × Text)) (t : Text) : Except Fault (List Header) :=
  (sites read t).filterMapM fun s => headerAt s.found t (startOf t s.rest)

/-- The class at a hit and its methods. -/
def classAt (t : Text) (s : Site Text) : Except Fault (List Text) := do
  let (span, stop) ← spanAt '(' ')' t (startOf t s.rest)
  let bases := unwrap span
  let entry : ClassEntry :=
    ⟨s.found, if span.getLast? = some ')' && !blank bases then some (collapse bases) else none⟩
  let methods ← headersBy methodAt? (← bodyAt t stop)
  return entry.fragment :: methods.map Header.fragment

/-- The headers of a source text. -/
def fragments (source : Text) : Except Fault (List Text) := do
  let t := CommentStyle.hash.strip source
  let functions ← headersBy functionAt? t
  let classes ← (sites classAt? t).flatMapM (classAt t)
  return distinct (functions.map Header.fragment ++ classes)

theorem suffix_of_defHead? {t rest : Text} {head : Bool × Text}
    (h : defHead? t = some (head, rest)) : rest <:+ t := by
  rw [defHead?] at h
  obtain ⟨u, hu, h⟩ := Option.bind_eq_some_iff.1 h
  obtain ⟨⟨name, v⟩, hword, h⟩ := Option.bind_eq_some_iff.1 h
  cases h
  exact (List.dropWhile_suffix _).trans ((suffix_of_run? hword).trans
    ((suffix_of_keywordBy? hu).trans (suffix_flagBy isIndent "async" t)))

theorem suffix_of_functionAt? (p : Place) (head : Bool × Text) (rest : Text)
    (h : functionAt? p = some (head, rest)) : rest <:+ p.rest := by
  rw [functionAt?] at h
  split at h
  · exact suffix_of_defHead? (Option.filter_eq_some_iff.1 h).1
  · cases h

theorem suffix_of_methodAt? (p : Place) (head : Bool × Text) (rest : Text)
    (h : methodAt? p = some (head, rest)) : rest <:+ p.rest := by
  rw [methodAt?] at h
  split at h
  · exact (suffix_of_defHead? (Option.filter_eq_some_iff.1 h).1).trans (List.dropWhile_suffix _)
  · cases h

theorem suffix_of_classAt? (p : Place) (name rest : Text) (h : classAt? p = some (name, rest)) :
    rest <:+ p.rest := by
  rw [classAt?] at h
  split at h
  · obtain ⟨u, hu, h⟩ := Option.bind_eq_some_iff.1 h
    obtain ⟨⟨name, v⟩, hword, h⟩ := Option.bind_eq_some_iff.1 h
    cases h
    exact (List.dropWhile_suffix _).trans ((suffix_of_run? hword).trans
      ((suffix_of_keywordBy? hu).trans (List.dropWhile_suffix _)))
  · cases h

theorem headerAt_startOf (head : Bool × Text) {t r : Text} (h : r <:+ t) :
    headerAt head t (startOf t r) = .ok (header? head r) := by
  rw [headerAt, groupAt_startOf h, ok_bind, header?]
  cases hgroup : group? r with
  | none => rfl
  | some g =>
    have hrest : g.2 <:+ t := (suffix_of_group? hgroup).trans h
    simp only [Option.map_some, drop_startOf hrest]
    rfl

theorem bodyEnd_append (a r : Text) (d : Int) :
    bodyEnd (a ++ r) (List.range' a.length r.length) d = .ok (a.length + (bodyFrom d r).length) := by
  induction r generalizing a d with
  | nil => simp [bodyEnd, bodyFrom]
  | cons c r ih =>
    have hnext (d : Int) := ih (a ++ [c]) d
    simp only [List.append_assoc, List.singleton_append, List.length_append, List.length_singleton]
      at hnext
    rw [List.length_cons, List.range'_succ, bodyEnd, look_append, ok_bind, bodyFrom]
    simp only [hnext]
    split
    · simp [Nat.add_comm 1, Nat.add_assoc]
    · split
      · by_cases hd : d = 1
        · simp [hd]
        · rw [if_neg (by omega), if_neg hd]
          simp [Nat.add_comm 1, Nat.add_assoc]
      · simp [Nat.add_comm 1, Nat.add_assoc]

theorem prefix_bodyFrom (d : Int) (t : Text) : bodyFrom d t <+: t := by
  induction t generalizing d with
  | nil => exact List.nil_prefix
  | cons c t ih =>
    rw [bodyFrom]
    split
    · exact List.cons_prefix_cons.2 ⟨rfl, ih _⟩
    · split
      · split
        · exact List.nil_prefix
        · exact List.cons_prefix_cons.2 ⟨rfl, ih _⟩
      · exact List.cons_prefix_cons.2 ⟨rfl, ih _⟩

theorem bodyAt_startOf {t r : Text} (h : r <:+ t) :
    bodyAt t (startOf t r) = .ok (classBody r) := by
  rw [bodyAt, classBody, findAt_startOf ':' h]
  obtain ⟨a, rfl⟩ := h
  cases hcut : cutAt? ':' r with
  | none => rfl
  | some cut =>
    obtain ⟨head, body⟩ := cut
    obtain rfl := eq_append_of_cutAt? hcut
    obtain ⟨rest, hbody⟩ := prefix_bodyFrom 0 body
    -- the text up to the colon, with it
    generalize hlead : a ++ head ++ [':'] = lead
    have hcolon : startOf (a ++ (head ++ ':' :: body)) (head ++ ':' :: body) + head.length + 1 =
        lead.length := by
      rw [startOf_append, ← hlead]
      simp [Nat.add_assoc]
    have htext : a ++ (head ++ ':' :: body) = lead ++ body := by simp [← hlead]
    have hslice := slice_append lead (bodyFrom 0 body) rest
    rw [hbody] at hslice
    simp only [Option.map_some, hcolon]
    rw [htext, List.length_append, Nat.add_sub_cancel_left, bodyEnd_append, ok_bind, hslice, pure_eq_ok]

theorem headersBy_eq_ok {read : Place → Option ((Bool × Text) × Text)}
    (hread : ∀ p found rest, read p = some (found, rest) → rest <:+ p.rest) (t : Text) :
    headersBy read t = .ok ((sites read t).filterMap fun s => header? s.found s.rest) :=
  filterMapM_eq_ok fun s hs => headerAt_startOf s.found (suffix_of_mem_sites hread hs)

theorem classAt_eq_ok {t : Text} {s : Site Text} (h : s.rest <:+ t) :
    classAt t s = .ok (classFragments s) := by
  have hrest := (suffix_balanced '(' ')' s.rest).trans h
  rw [classAt, spanAt_startOf '(' ')' h, ok_bind]
  simp only [bodyAt_startOf hrest, ok_bind, headersBy_eq_ok suffix_of_methodAt?, pure_eq_ok]
  rfl

/-- Locating by offset finds the headers of a source. -/
theorem fragments_eq_ok (source : Text) :
    fragments source = .ok (Synopsis.Python.fragments source) := by
  rw [fragments, headersBy_eq_ok suffix_of_functionAt?, ok_bind,
    flatMapM_eq_ok fun s hs => classAt_eq_ok (suffix_of_mem_sites suffix_of_classAt? hs)]
  rfl

/-! ## Signatures -/

/-- One parameter without its default. -/
def parameter (t : Text) : Except Fault Parameter := do
  match ← breakTopBy ':' noAnglePairs t with
  | some (name, type) => return { name := trim name, type := nonempty? (trim type) }
  | none => return { name := t }

/-- The parameters of a parameter list. -/
def parameters (t : Text) : Except Fault (List Parameter) := do
  let cut ← (← splitTop noAnglePairs t).mapM (cutTopBy '=' noAnglePairs)
  (cut.filter fun p => p ≠ ['*'] && p ≠ ['/']).mapM parameter

/-- Whether the first of some parameters is `self`. -/
def firstIsSelf (ps : List Parameter) : Except Fault Bool := do
  if ps.isEmpty then return false else return (← look ps 0).name == "self".toList

/-- The signature of a header. -/
def signature (fragment : Text) : Except Fault Signature := do
  let fragment := trim fragment
  let (isAsync, t) := flag "async" fragment
  let some (name, t) := (keyword? "def" t).bind word? | throw (.rejected .notDefHeader)
  let t := trimStart t
  if t.head? ≠ some '(' then throw (.rejected .notDefHeader)
  let some (params, stop) ← groupAt fragment (startOf fragment t)
    | throw (.rejected .unterminatedParameters)
  let parameters ← parameters params
  let isMethod ← firstIsSelf parameters
  return { name, parameters, isAsync, isMethod, returnType := returnType (fragment.drop stop) }

theorem parameter_eq_ok (t : Text) : parameter t = .ok (Synopsis.Python.parameter t) := by
  rw [parameter, breakTopBy_eq_ok ofText?_noAnglePairs, ok_bind, Synopsis.Python.parameter]
  cases Brackets.noAngle.breakTop? ':' t <;> rfl

theorem parameters_eq_ok (t : Text) : parameters t = .ok (Synopsis.Python.parameters t) := by
  rw [parameters, splitTop_eq_ok ofText?_noAnglePairs Brackets.usual_noAngle, ok_bind,
    mapM_eq_ok fun p _ => cutTopBy_eq_ok ofText?_noAnglePairs '=' p, ok_bind,
    mapM_eq_ok fun p _ => parameter_eq_ok p]
  rfl

theorem firstIsSelf_eq_ok (ps : List Parameter) :
    firstIsSelf ps = .ok (ps.head?.any (·.name == "self".toList)) := by
  cases ps <;> rfl

theorem signature_eq (fragment : Text) :
    signature fragment = (Synopsis.Python.signature fragment).mapError .rejected := by
  simp only [signature, Synopsis.Python.signature]
  cases hname : (keyword? "def" (flag "async" (trim fragment)).2).bind word? with
  | none => rfl
  | some named =>
    obtain ⟨name, t⟩ := named
    obtain ⟨u, hu, hword⟩ := Option.bind_eq_some_iff.1 hname
    have ht : trimStart t <:+ trim fragment := (suffix_trimStart t).trans ((suffix_of_run? hword).trans
      ((suffix_of_keywordBy? hu).trans (suffix_flag "async" (trim fragment))))
    by_cases hopen : (trimStart t).head? ≠ some '('
    · simp only [if_pos hopen]
      rfl
    · simp only [if_neg hopen, groupAt_startOf ht]
      cases hgroup : group? (trimStart t) with
      | none => rfl
      | some g =>
        have hrest := (suffix_of_group? hgroup).trans ht
        simp only [Option.map_some, ok_bind, parameters_eq_ok, firstIsSelf_eq_ok, drop_startOf hrest]
        rfl

end Synopsis.Offset.Python
