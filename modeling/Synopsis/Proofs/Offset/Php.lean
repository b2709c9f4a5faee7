import Synopsis.Proofs.Offset.Nesting
import Synopsis.Proofs.Php.Ownership

/-!
# PHP by offset

A type or an anonymous class is read with the block at the offset of its brace, a function with the
parameters at the offset where its head ends. The methods of a type are those at whose offset the
table of its body has depth zero. Attributes are cut out of a parameter list one after another, and
each cut leaves a shorter list.
-/

namespace Synopsis.Offset.Php

open Text
open Synopsis.Php (Entry Stretch TypeBlock covered typeHead? typeAt? functionAt? function? returnText?
  returnType anonymousSite? anonymousSite?_eq_some eq_append_of_anonymousAt? suffix_of_typeHead?
  name_of_functionAt? breakAttribute? length_lt_of_breakAttribute? stripAttributes typeName? splitOwner)

/-! ## Locating -/

/-- The function at a hit, if its parameter list is closed. -/
def functionBy (owner : Option Text) (t : Text) (s : Site Text) : Except Fault (Option Entry) := do
  match ← groupAt t (startOf t s.rest) with
  | some (params, stop) =>
    return some (.function s.found (collapse params) (returnText? (t.drop stop)) owner)
  | none => return none

/-- The stretches of the anonymous classes. -/
def anonymousStretches (t : Text) : Except Fault (List Stretch) :=
  (sites anonymousSite? t).mapM fun s => do
    let (_, stop) ← spanAt '{' '}' t (startOf t s.found)
    return ⟨s.start, stop⟩

/-- The type declaration at a place of a text. -/
def typeBy (t : Text) (hidden : List Stretch) (p : Place) :
    Except Fault (Option (Option TypeBlock × Text)) := do
  match typeHead? p with
  | none => return none
  | some ((kind, name), z) =>
    if covered hidden p.offset then return some (none, z.drop 1)
    else
      let (block, stop) ← spanAt '{' '}' t (startOf t z)
      return some (some ⟨kind, name, unwrap block⟩, t.drop stop)

/-- The methods that stand directly in the braces of a type. -/
def methods (owner body : Text) : Except Fault (List Entry) := do
  filterTop (← braceTable body) Site.start (functionBy (some owner) body) (sites functionAt? body)

/-- A type and its methods. -/
def typeEntries (b : TypeBlock) : Except Fault (List Entry) := do
  return .type b.kind b.name :: (← methods b.name b.body)

/-- The entries of a text without comments. -/
def entries (t : Text) : Except Fault (List Entry) := do
  let hidden ← anonymousStretches t
  let found ← sitesBy (typeBy t hidden) t
  let types := found.filterMap fun s => s.found.map fun b => ((⟨s.start, startOf t s.rest⟩ : Stretch), b)
  let typed ← types.flatMapM fun b => typeEntries b.2
  let free ← ((sites functionAt? t).filter fun s =>
    !covered (hidden ++ types.map Prod.fst) s.start).filterMapM (functionBy none t)
  return typed ++ free

/-- The declarations of a source text. -/
def fragments (source : Text) : Except Fault (List Text) := do
  return distinct ((← entries (CommentStyle.slashesAndHash.strip source)).map Entry.fragment)

theorem functionBy_eq_ok (owner : Option Text) {t : Text} {s : Site Text} (h : s ∈ sites functionAt? t) :
    functionBy owner t s = .ok (function? owner s.found s.rest) := by
  have hrest := suffix_of_mem_sites (fun p name rest hread => (name_of_functionAt? hread).2) h
  unfold functionBy function?
  rw [groupAt_startOf hrest, ok_bind]
  cases hgroup : group? s.rest with
  | none => rfl
  | some g =>
    simp only [Option.map_some, drop_startOf ((suffix_of_group? hgroup).trans hrest)]
    rfl

theorem anonymousStretches_eq_ok (t : Text) :
    anonymousStretches t = .ok (Synopsis.Php.anonymousStretches t) := by
  refine mapM_eq_ok fun s hs => ?_
  obtain ⟨a, b, rfl, -, hread⟩ := exists_cut_of_mem_sites hs
  obtain ⟨m, hm, -, -⟩ := eq_append_of_anonymousAt? (anonymousSite?_eq_some.1 hread).1
  obtain rfl : b = m ++ s.found := hm
  have hfound : s.found <:+ a ++ (m ++ s.found) :=
    (List.suffix_append m s.found).trans (List.suffix_append a _)
  rw [spanAt_startOf '{' '}' hfound]
  rfl

theorem typeBy_between (hidden : List Stretch) (a b : Text) :
    typeBy (a ++ b) hidden (.between a b) = .ok (typeAt? hidden (.between a b)) := by
  unfold typeBy typeAt?
  cases hhead : typeHead? (.between a b) with
  | none => rfl
  | some head =>
    obtain ⟨⟨kind, name⟩, z⟩ := head
    have hz : z <:+ a ++ b := (suffix_of_typeHead? hhead).1.trans (List.suffix_append a b)
    have hrest := (suffix_balanced '{' '}' z).trans hz
    simp only [spanAt_startOf '{' '}' hz, ok_bind, drop_startOf hrest]
    cases covered hidden (Place.between a b).offset <;> rfl

theorem methods_eq_ok (owner body : Text) :
    methods owner body = .ok (Synopsis.Php.methods owner body) := by
  rw [methods, braceTable_eq_ok, ok_bind]
  exact filterTop_eq_ok (fun s hs => start_lt_braceDepths hs)
    fun s hs => functionBy_eq_ok (some owner) hs

theorem typeEntries_eq_ok (b : TypeBlock) : typeEntries b = .ok b.entries := by
  rw [typeEntries, methods_eq_ok]
  rfl

theorem entries_eq_ok (t : Text) : entries t = .ok (Synopsis.Php.entries t) := by
  have hfree (spans : List Stretch) : ((sites functionAt? t).filter fun s =>
      !covered spans s.start).filterMapM (functionBy none t) = .ok (((sites functionAt? t).filter
        fun s => !covered spans s.start).filterMap fun s => function? none s.found s.rest) :=
    filterMapM_eq_ok fun s hs => functionBy_eq_ok none (List.mem_filter.1 hs).1
  unfold entries
  rw [anonymousStretches_eq_ok, ok_bind, sitesBy_eq_ok fun a b ht => ht ▸ typeBy_between _ a b, ok_bind]
  simp only [flatMapM_eq_ok fun (b : Stretch × TypeBlock) _ => typeEntries_eq_ok b.2, hfree, ok_bind]
  rfl

/-- Locating by offset finds the declarations of a source. -/
theorem fragments_eq_ok (source : Text) : fragments source = .ok (Synopsis.Php.fragments source) := by
  rw [fragments, entries_eq_ok]
  rfl

/-! ## Signatures -/

/-- A text without its attributes. A cut that did not shorten the text would be a standstill. -/
def withoutAttributes (t : Text) : Except Fault Text :=
  match cut? "#[".toList t with
  | none => .ok t
  | some (head, _) => do
    let (_, stop) ← spanAt '[' ']' t (head.length + 1)
    let next := t.take head.length ++ t.drop stop
    if _h : next.length < t.length then withoutAttributes next else throw .standstill
termination_by t.length
decreasing_by exact _h

/-- The parameters of a parameter list. -/
def parameters (t : Text) : Except Fault (List Parameter) := do
  let pieces ← splitTop noAnglePairs (← withoutAttributes t)
  return (← pieces.mapM (cutTopBy '=' noAnglePairs)).map Synopsis.Php.parameter

/-- The signature of a declaration. -/
def signature (fragment : Text) : Except Fault Signature := do
  let fragment := trim fragment
  if let some name := typeName? fragment then return { name }
  let (fragment, className) := splitOwner fragment
  let some (name, t) := (keyword? "function" fragment).bind name?
    | throw (.rejected .notFunctionHeader)
  let t := trimStart t
  if t.head? ≠ some '(' then throw (.rejected .notFunctionHeader)
  let some (params, stop) ← groupAt fragment (startOf fragment t)
    | throw (.rejected .unterminatedParameters)
  let parameters ← parameters params
  return { name, className, parameters, returnType := returnType (fragment.drop stop) }

theorem withoutAttributes_eq_ok (t : Text) : withoutAttributes t = .ok (stripAttributes t) := by
  fun_induction stripAttributes t with
  | case1 t head rest hbreak ih =>
    have hlt := length_lt_of_breakAttribute? hbreak
    obtain ⟨⟨head', tail⟩, hcut, he⟩ := Option.map_eq_some_iff.1 hbreak
    obtain ⟨rfl, rfl⟩ := Prod.mk.inj he
    have ht : t = head' ++ ("#[".toList ++ tail) := by simpa using eq_of_cut? hcut
    have hlen : head'.length + 2 ≤ t.length := by simp [ht]
    have hbracket : startOf t (t.drop (head'.length + 1)) = head'.length + 1 := by
      rw [startOf, List.length_drop]
      omega
    have hspan := spanAt_startOf '[' ']' (List.drop_suffix (head'.length + 1) t)
    have hrest := (suffix_balanced '[' ']' _).trans (List.drop_suffix (head'.length + 1) t)
    have htake : t.take head'.length = head' := by rw [ht, List.take_left]
    rw [hbracket] at hspan
    rw [withoutAttributes, hcut]
    simp only [hspan, ok_bind, drop_startOf hrest, htake, dif_pos hlt, ih]
  | case2 t hnone =>
    rw [withoutAttributes, Option.map_eq_none_iff.1 hnone]

theorem parameters_eq_ok (t : Text) : parameters t = .ok (Synopsis.Php.parameters t) := by
  rw [parameters, withoutAttributes_eq_ok, ok_bind,
    splitTop_eq_ok ofText?_noAnglePairs Brackets.usual_noAngle, ok_bind,
    mapM_eq_ok fun p _ => cutTopBy_eq_ok ofText?_noAnglePairs '=' p, ok_bind, pure_eq_ok,
    List.map_map]
  rfl

theorem signature_eq (fragment : Text) :
    signature fragment = (Synopsis.Php.signature fragment).mapError .rejected := by
  simp only [signature, Synopsis.Php.signature]
  cases typeName? (trim fragment) with
  | some name => rfl
  | none =>
    obtain ⟨fragment, className⟩ := splitOwner (trim fragment)
    cases hname : (keyword? "function" fragment).bind name? with
    | none => rfl
    | some named =>
      obtain ⟨name, t⟩ := named
      obtain ⟨u, hu, hn⟩ := Option.bind_eq_some_iff.1 hname
      have ht : trimStart t <:+ fragment :=
        (suffix_trimStart t).trans ((suffix_of_name? hn).trans (suffix_of_keywordBy? hu))
      by_cases hopen : (trimStart t).head? ≠ some '('
      · simp only [if_pos hopen]
        rfl
      · simp only [if_neg hopen, groupAt_startOf ht]
        cases hgroup : group? (trimStart t) with
        | none => rfl
        | some g =>
          have hrest := (suffix_of_group? hgroup).trans ht
          simp only [Option.map_some, ok_bind, parameters_eq_ok, drop_startOf hrest]
          rfl

end Synopsis.Offset.Php
