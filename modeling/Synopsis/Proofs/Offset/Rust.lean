import Synopsis.Language.RustSignature
import Synopsis.Proofs.Offset.Nesting

/-!
# Rust by offset

Generics are read by looking up every character from the opening bracket on and, at a closing one,
the character before it. A return type ends at the nearer of two stops, each searched on its own. The
owner of an `impl` header and the receiver of a parameter list are looked up in the lists into which
the texts are split.
-/

namespace Synopsis.Offset.Rust

open Text
open Synopsis.Rust (Item genericsFrom generics whereAt? forAt? beforeWhere returnType receiver?
  canonicalReceiver lastSegmentFrom bareType implOwner? skipVisibility skipExtern fnHead? functionAt?
  memberAt? writtenParameters item? block? implAt? traitAt? implItems traitItems path?)

/-! ## Generics -/

/-- The offset just past the bracket that closes generics of which `depth` are open, or the end. -/
def genericsEnd (t : Text) : (offsets : List Nat) → (depth : Nat) → Except Fault Nat
  | [], _ => .ok t.length
  | i :: is, d => do
    let c ← look t i
    if c = '<' then genericsEnd t is (d + 1)
    else if c = '>' then
      if (← lookBefore t i) ≠ '-' then
        if d = 1 then return i + 1 else genericsEnd t is (d - 1)
      else genericsEnd t is d
    else genericsEnd t is d

/-- The generics at an offset and the offset just past them. -/
def genericsAt (t : Text) (start : Nat) : Except Fault (Text × Nat) := do
  if t.length ≤ start then return ([], start)
  else if (← look t start) ≠ '<' then return ([], start)
  else
    let stop ← genericsEnd t (List.range' start (t.length - start)) 0
    return (slice t start stop, stop)

theorem genericsFrom_cut (d : Nat) (prev : Option Char) (t : Text) :
    (genericsFrom d prev t).1 ++ (genericsFrom d prev t).2 = t := by
  induction t generalizing d prev with
  | nil => rfl
  | cons c t ih =>
    rw [genericsFrom]
    split
    · simp [keep, ih]
    · split
      · split <;> simp [keep, ih]
      · simp [keep, ih]

theorem generics_cut (t : Text) : (generics t).1 ++ (generics t).2 = t := by
  rw [generics]
  split
  · exact genericsFrom_cut 0 none t
  · rfl

theorem suffix_generics (t : Text) : (generics t).2 <:+ t := ⟨_, generics_cut t⟩

/-- Inside generics there is always a character before the one looked at: the opening bracket. -/
theorem genericsEnd_append {a : Text} {prev : Char} (ha : a.getLast? = some prev) (r : Text) (d : Nat) :
    genericsEnd (a ++ r) (List.range' a.length r.length) d =
      .ok (a.length + (genericsFrom d (some prev) r).1.length) := by
  induction r generalizing a prev d with
  | nil => simp [genericsEnd, genericsFrom]
  | cons c r ih =>
    have hnext (d : Nat) := ih (a := a ++ [c]) (List.getLast?_concat) d
    simp only [List.append_assoc, List.singleton_append, List.length_append, List.length_singleton]
      at hnext
    rw [List.length_cons, List.range'_succ, genericsEnd, look_append, ok_bind, genericsFrom,
      lookBefore_of_getLast? ha]
    simp only [hnext, ok_bind]
    by_cases hopen : c = '<'
    · simp [hopen, keep, Nat.add_comm 1, Nat.add_assoc]
    · by_cases hclose : c = '>'
      · by_cases hprev : prev = '-'
        · simp [hclose, hprev, keep, Nat.add_comm 1, Nat.add_assoc]
        · by_cases hd : d = 1
          · simp [hclose, hprev, hd]
          · simp [hclose, hprev, hd, keep, Nat.add_comm 1, Nat.add_assoc]
      · simp [hopen, hclose, keep, Nat.add_comm 1, Nat.add_assoc]

theorem genericsEnd_start (a r : Text) :
    genericsEnd (a ++ '<' :: r) (List.range' a.length (r.length + 1)) 0 =
      .ok (a.length + (genericsFrom 0 none ('<' :: r)).1.length) := by
  have hnext := genericsEnd_append (a := a ++ ['<']) List.getLast?_concat r 1
  simp only [List.append_assoc, List.singleton_append, List.length_append, List.length_singleton]
    at hnext
  rw [List.range'_succ, genericsEnd, look_append, ok_bind, if_pos rfl, hnext, genericsFrom, if_pos rfl,
    keep, List.length_cons, Nat.add_assoc, Nat.add_comm 1]

theorem genericsAt_append (a r : Text) :
    genericsAt (a ++ r) a.length = .ok ((generics r).1, a.length + (generics r).1.length) := by
  cases r with
  | nil => simp [genericsAt, generics]
  | cons c r =>
    rw [genericsAt, if_neg (by simp), look_append, ok_bind, generics]
    by_cases hc : c = '<'
    · subst hc
      have hslice := slice_append a (genericsFrom 0 none ('<' :: r)).1 (genericsFrom 0 none ('<' :: r)).2
      rw [genericsFrom_cut] at hslice
      rw [if_neg (by simp), if_pos (by simp), List.length_append, Nat.add_sub_cancel_left,
        List.length_cons, genericsEnd_start, ok_bind, hslice]
      rfl
    · rw [if_pos hc, if_neg (by simpa using hc)]
      rfl

theorem genericsAt_startOf {t r : Text} (h : r <:+ t) :
    genericsAt t (startOf t r) = .ok ((generics r).1, startOf t (generics r).2) := by
  obtain ⟨a, rfl⟩ := h
  have hcut : a ++ r = (a ++ (generics r).1) ++ (generics r).2 := by
    rw [List.append_assoc, generics_cut]
  have hstop : startOf (a ++ r) (generics r).2 = a.length + (generics r).1.length := by
    rw [hcut, startOf_append, List.length_append]
  rw [startOf_append, genericsAt_append, hstop]

/-! ## Return types -/

/-- The offset of the first stop of a return type outside brackets, the body brace or a semicolon. -/
def stopAt (t : Text) : Except Fault (Option Nat) :=
  ['{', ';'].foldlM (fun cut stop => do
    match ← findTop stop noCurlyPairs t with
    | some i => return if cut.all (i < ·) then some i else cut
    | none => return cut) none

/-- The return type that follows a parameter list. -/
def returnTypeBy (t : Text) : Except Fault (Option Text) := do
  match after? "->".toList (trimStart t) with
  | none => return none
  | some t =>
    let t ← look (halves (breakAt? whereAt? t) t) 0
    match ← stopAt t with
    | some i => return nonempty? (collapse (t.take i))
    | none => return nonempty? (collapse (← look (halves (cutAt? '\n' t) t) 0))

theorem look_where (t : Text) : look (halves (breakAt? whereAt? t) t) 0 = .ok (beforeWhere t) :=
  look_halves _ t

/-- The first of two targets stands where the nearer of them does. -/
theorem length_breakTopFrom_or {b : Brackets} (p q : Char → Bool) (d : Nat) (prev : Option Char)
    (t : Text) :
    (b.breakTopFrom (fun c => p c || q c) d prev t).map (·.1.length) =
      ((b.breakTopFrom p d prev t).map (·.1.length)).merge min
        ((b.breakTopFrom q d prev t).map (·.1.length)) := by
  induction t generalizing d prev with
  | nil => rfl
  | cons c t ih =>
    have hkeep (cut : Option (Text × Text)) :
        (cut.map (keep c)).map (·.1.length) = (cut.map (·.1.length)).map (· + 1) := by
      cases cut <;> rfl
    have hnear (k : Option Nat) : (some 0).merge min (k.map (· + 1)) = some 0 ∧
        (k.map (· + 1)).merge min (some 0) = some 0 := by
      cases k <;> simp
    have hboth (k l : Option Nat) : (k.merge min l).map (· + 1) =
        (k.map (· + 1)).merge min (l.map (· + 1)) := by
      cases k <;> cases l <;> simp
    simp only [Brackets.breakTopFrom_cons]
    by_cases hd : d = 0
    · cases hp : p c <;> cases hq : q c <;> simp [-Option.map_map, hd, hkeep, hnear, hboth, ih]
    · simp [-Option.map_map, hd, hkeep, hboth, ih]

theorem stopAt_eq_ok (t : Text) :
    stopAt t = .ok ((Brackets.noCurly.breakTopFrom (fun c => c == '{' || c == ';') 0 none t).map
      (·.1.length)) := by
  rw [length_breakTopFrom_or]
  simp only [stopAt, List.foldlM_cons, List.foldlM_nil, findTop_eq_ok ofText?_noCurlyPairs, ok_bind,
    Brackets.breakTop?]
  generalize (Brackets.noCurly.breakTopFrom (· == '{') 0 none t).map (·.1.length) = k
  generalize (Brackets.noCurly.breakTopFrom (· == ';') 0 none t).map (·.1.length) = l
  cases k with
  | none => cases l <;> rfl
  | some k =>
    cases l with
    | none => rfl
    | some l =>
      by_cases hlt : l < k
      · simp [hlt, Nat.min_eq_right (Nat.le_of_lt hlt)]
      · simp [hlt, Nat.min_eq_left (Nat.le_of_not_lt hlt)]

theorem returnTypeBy_eq_ok (t : Text) : returnTypeBy t = .ok (returnType t) := by
  unfold returnTypeBy returnType
  cases after? "->".toList (trimStart t) with
  | none => rfl
  | some t =>
    simp only [look_where, ok_bind, stopAt_eq_ok, look_halves_cutAt?]
    cases hcut : Brackets.noCurly.breakTopFrom (fun c => c == '{' || c == ';') 0 none (beforeWhere t) with
    | none => simp [hcut]
    | some cut =>
      obtain ⟨c, hc, -⟩ := Brackets.eq_append_of_breakTopFrom hcut
      have htake : (beforeWhere t).take cut.1.length = cut.1 := by rw [hc, List.take_left]
      simp [hcut, htake]

/-! ## Owners -/

/-- The stretches between double colons, the first of them begun. -/
def segmentsFrom : (begun : Text) → Text → List Text
  | begun, [] => [begun]
  | begun, ':' :: ':' :: cs => begun :: segmentsFrom [] cs
  | begun, c :: cs => segmentsFrom (begun ++ [c]) cs

/-- The bare name of the type that an `impl` header gives methods to. -/
def implOwner (header : Text) : Except Fault (Option Text) := do
  let header := trim header
  let (_, stop) ← genericsAt header 0
  let t := header.drop stop
  let t ← look (halves (breakAt? whereAt? t) t) 0
  let t := bareType (trim (← lookLast (halves (breakAt? forAt? t) t)))
  let t ← look (halves (cutAt? '<' t) t) 0
  let name := trim (← lookLast (segmentsFrom [] t))
  return if isName name then some name else none

theorem getLast?_segmentsFrom (s t : Text) :
    (segmentsFrom s.reverse t).getLast? = some (lastSegmentFrom s t) := by
  fun_induction lastSegmentFrom s t with
  | case1 s => rfl
  | case2 s t ih =>
    rw [segmentsFrom, List.getLast?_cons, ← List.reverse_nil, ih]
    rfl
  | case3 s c t hne ih =>
    rw [List.reverse_cons] at ih
    rw [segmentsFrom]
    · exact ih
    · exact hne

theorem implOwner_eq_ok (header : Text) : implOwner header = .ok (implOwner? header) := by
  have hgenerics := genericsAt_startOf (List.suffix_refl (trim header))
  rw [startOf, Nat.sub_self] at hgenerics
  have hsegment (t : Text) : lookLast (segmentsFrom [] t) = .ok (lastSegmentFrom [] t) :=
    lookLast_eq_ok (getLast?_segmentsFrom [] t)
  simp only [implOwner, hgenerics, ok_bind, drop_startOf (suffix_generics (trim header)), look_where,
    lookLast_halves, look_halves_cutAt?, hsegment, pure_eq_ok, implOwner?]

/-! ## Locating -/

/-- The parameters of a list on one line each, a leading receiver in the one way it is written. -/
def writtenBy (params : Text) : Except Fault (List Text) := do
  let segments := (← splitTop allPairs params).map collapse
  if segments.isEmpty then return segments
  else put segments 0 (canonicalReceiver (← look segments 0))

/-- The item at a hit, if its parameter list is closed. -/
def itemBy (owner : Option Text) (t : Text) (s : Site (Bool × Text)) : Except Fault (Option Item) := do
  let (own, i) ← genericsAt t (startOf t s.rest)
  let i ← skipFrom (fun c => c == ' ' || c == '\t' || c == '\r' || c == '\n') t i
  match ← groupAt t i with
  | some (params, stop) =>
    let written ← writtenBy params
    let returns ← returnTypeBy (t.drop stop)
    return some ⟨s.found.1, owner, s.found.2, collapse own, written, returns⟩
  | none => return none

/-- The header from an offset up to the next brace and the text inside the block that it opens. -/
def blockAt (t : Text) (start : Nat) : Except Fault (Option (Text × Text)) := do
  match findAt '{' t start with
  | none => return none
  | some brace =>
    if (slice t start brace).contains ';' then return none
    else
      let (block, _) ← spanAt '{' '}' t brace
      return some (slice t start brace, unwrap block)

/-- The functions that stand directly in a block. -/
def members (owner body : Text) : Except Fault (List Item) := do
  filterTop (← braceTable body) Site.start (itemBy (some owner) body) (sites memberAt? body)

/-- The members of the `impl` block at a hit. -/
def implBy (t : Text) (s : Site Unit) : Except Fault (List Item) := do
  match ← blockAt t (startOf t s.rest) with
  | none => return []
  | some (header, body) =>
    match ← implOwner header with
    | some owner => members owner body
    | none => return []

/-- The members of the trait at a hit. -/
def traitBy (t : Text) (s : Site Text) : Except Fault (List Item) := do
  match ← blockAt t (startOf t s.rest) with
  | none => return []
  | some (_, body) => members s.found body

/-- The functions of a source text. -/
def fragments (source : Text) : Except Fault (List Text) := do
  let t := CommentStyle.slashes.strip source
  let free ← (sites functionAt? t).filterMapM (itemBy none t)
  let owned ← (sites implAt? t).flatMapM (implBy t)
  let declared ← (sites traitAt? t).flatMapM (traitBy t)
  return distinct ((free ++ owned ++ declared).map Item.fragment)

theorem suffix_skipVisibility (t : Text) : skipVisibility t <:+ t := by
  refine suffix_getD fun rest h => ?_
  obtain ⟨u, hu, h⟩ := Option.bind_eq_some_iff.1 h
  refine (suffix_of_skip1? h).trans ((suffix_getD fun scope hscope => ?_).trans (suffix_of_after? hu))
  obtain ⟨v, hv, hscope⟩ := Option.bind_eq_some_iff.1 hscope
  exact (suffix_of_after? hscope).trans ((List.dropWhile_suffix _).trans (suffix_of_after? hv))

theorem suffix_skipExtern (t : Text) : skipExtern t <:+ t := by
  refine suffix_getD fun rest h => ?_
  obtain ⟨u, hu, h⟩ := Option.bind_eq_some_iff.1 h
  obtain ⟨v, hv, h⟩ := Option.bind_eq_some_iff.1 h
  obtain ⟨w, hw, h⟩ := Option.bind_eq_some_iff.1 h
  have hquoted := (suffix_of_after? hw).trans ((List.dropWhile_suffix _).trans (suffix_of_after? hv))
  exact (suffix_of_skip1? h).trans (hquoted.trans (suffix_of_keywordBy? hu))

theorem suffix_of_fnHead? {t rest : Text} {head : Bool × Text} (h : fnHead? t = some (head, rest)) :
    rest <:+ t := by
  have hlead : skipKeyword ["const"] (skipKeyword ["default"] (skipVisibility t)) <:+ t :=
    (suffix_skipKeyword _ _).trans ((suffix_skipKeyword _ _).trans (suffix_skipVisibility t))
  unfold fnHead? at h
  generalize skipKeyword ["const"] (skipKeyword ["default"] (skipVisibility t)) = lead at h hlead
  have hflags : skipExtern (skipKeyword ["unsafe"] (flag "async" lead).2) <:+ lead :=
    (suffix_skipExtern _).trans ((suffix_skipKeyword _ _).trans (suffix_flag "async" lead))
  obtain ⟨u, hu, h⟩ := Option.bind_eq_some_iff.1 h
  obtain ⟨⟨name, v⟩, hword, h⟩ := Option.bind_eq_some_iff.1 h
  cases h
  have hname := (suffix_trimStart v).trans ((suffix_of_run? hword).trans (suffix_of_keywordBy? hu))
  exact hname.trans (hflags.trans hlead)

theorem suffix_of_functionAt? (p : Place) (head : Bool × Text) (rest : Text)
    (h : functionAt? p = some (head, rest)) : rest <:+ p.rest := by
  rw [functionAt?] at h
  split at h
  · exact suffix_of_fnHead? h
  · cases h

theorem suffix_of_memberAt? (p : Place) (head : Bool × Text) (rest : Text)
    (h : memberAt? p = some (head, rest)) : rest <:+ p.rest := by
  rw [memberAt?] at h
  split at h
  · exact suffix_of_fnHead? h
  · cases h

theorem suffix_of_implAt? (p : Place) (found : Unit) (rest : Text)
    (h : implAt? p = some (found, rest)) : rest <:+ p.rest := by
  rw [implAt?] at h
  split at h
  · obtain ⟨u, hu, he⟩ := Option.map_eq_some_iff.1 h
    obtain ⟨-, rfl⟩ := Prod.mk.inj he
    exact (suffix_of_wholeWord? hu).trans
      ((suffix_skipKeyword ["unsafe"] _).trans (List.dropWhile_suffix _))
  · cases h

theorem suffix_of_traitAt? (p : Place) (name rest : Text) (h : traitAt? p = some (name, rest)) :
    rest <:+ p.rest := by
  rw [traitAt?] at h
  split at h
  · obtain ⟨u, hu, hword⟩ := Option.bind_eq_some_iff.1 h
    exact ((suffix_of_run? hword).trans (suffix_of_keywordBy? hu)).trans
      ((suffix_skipKeyword ["unsafe"] _).trans
        ((suffix_skipVisibility _).trans (List.dropWhile_suffix _)))
  · cases h

theorem writtenBy_eq_ok (params : Text) : writtenBy params = .ok (writtenParameters params) := by
  rw [writtenBy, splitTop_eq_ok ofText?_allPairs Brackets.usual_all, ok_bind, writtenParameters]
  cases (Brackets.all.pieces params).map collapse <;> rfl

theorem itemBy_eq_ok (owner : Option Text) {t : Text} {s : Site (Bool × Text)} (h : s.rest <:+ t) :
    itemBy owner t s = .ok (item? owner s.found s.rest) := by
  have hown := (suffix_generics s.rest).trans h
  have hgap := (List.dropWhile_suffix
    (fun c => c == ' ' || c == '\t' || c == '\r' || c == '\n')).trans hown
  unfold itemBy item?
  simp only [genericsAt_startOf h, ok_bind, skipFrom_startOf _ hown, groupAt_startOf hgap]
  cases hgroup : group? _ with
  | none => rfl
  | some g =>
    simp only [Option.map_some, writtenBy_eq_ok, ok_bind, returnTypeBy_eq_ok,
      drop_startOf ((suffix_of_group? hgroup).trans hgap)]
    rfl

theorem blockAt_startOf {t r : Text} (h : r <:+ t) : blockAt t (startOf t r) = .ok (block? r) := by
  unfold blockAt block?
  rw [findAt_startOf '{' h]
  cases hcut : cutAt? '{' r with
  | none => rfl
  | some cut =>
    obtain ⟨a, rfl⟩ := h
    obtain ⟨header, rest⟩ := cut
    obtain rfl := eq_append_of_cutAt? hcut
    have hspan := spanAt_append '{' '}' (a ++ header) ('{' :: rest)
    rw [List.append_assoc, List.length_append] at hspan
    simp only [Option.map_some, startOf_append, slice_append, hspan, ok_bind]
    show _ = Except.ok (if header.contains ';' then none
      else some (header, unwrap (braces ('{' :: rest)).1))
    split <;> rfl

theorem members_eq_ok (owner body : Text) :
    members owner body = .ok (Synopsis.Rust.members owner body) := by
  rw [members, braceTable_eq_ok, ok_bind]
  exact filterTop_eq_ok (fun s hs => start_lt_braceDepths hs)
    fun s hs => itemBy_eq_ok (some owner) (suffix_of_mem_sites suffix_of_memberAt? hs)

theorem implBy_eq_ok {t : Text} {s : Site Unit} (h : s.rest <:+ t) :
    implBy t s = .ok (implItems s.rest) := by
  unfold implBy implItems
  rw [blockAt_startOf h, ok_bind]
  cases block? s.rest with
  | none => rfl
  | some block =>
    simp only [implOwner_eq_ok, ok_bind]
    cases howner : implOwner? block.1 with
    | none => simp [howner]
    | some owner => simp [howner, members_eq_ok]

theorem traitBy_eq_ok {t : Text} {s : Site Text} (h : s.rest <:+ t) :
    traitBy t s = .ok (traitItems s.found s.rest) := by
  unfold traitBy traitItems
  rw [blockAt_startOf h, ok_bind]
  cases block? s.rest with
  | none => rfl
  | some block => exact members_eq_ok s.found block.2

/-- Locating by offset finds the functions of a source. -/
theorem fragments_eq_ok (source : Text) : fragments source = .ok (Synopsis.Rust.fragments source) := by
  unfold fragments
  simp only [filterMapM_eq_ok fun s hs =>
      itemBy_eq_ok none (suffix_of_mem_sites suffix_of_functionAt? hs),
    flatMapM_eq_ok fun s hs => implBy_eq_ok (suffix_of_mem_sites suffix_of_implAt? hs),
    flatMapM_eq_ok fun s hs => traitBy_eq_ok (suffix_of_mem_sites suffix_of_traitAt? hs), ok_bind]
  rfl

/-! ## Signatures -/

/-- One parameter: a receiver, or a pattern with the type after its colon. -/
def parameter (t : Text) : Except Fault Parameter := do
  if (receiver? t).isSome then return { name := "self".toList }
  else
    let (name, type) := match ← breakTopBy ':' allPairs t with
      | some (name, type) => (trim name, nonempty? (collapse type))
      | none => (t, none)
    match after? "mut ".toList name with
    | some name => return { name := trim name, type, isMutable := true }
    | none => return { name, type }

/-- The parameters of a parameter list. -/
def parameters (t : Text) : Except Fault (List Parameter) := do
  (← splitTop allPairs t).mapM parameter

/-- Whether the first piece of a parameter list is a receiver. -/
def hasReceiver (params : Text) : Except Fault Bool := do
  let first := (← splitTop allPairs params).take 1
  if first.isEmpty then return false else return (receiver? (← look first 0)).isSome

/-- The signature of a written item. -/
def signature (fragment : Text) : Except Fault Signature := do
  let fragment := trim fragment
  let (isAsync, t) := flag "async" fragment
  let some (name, t) := (keyword? "fn" t).bind path? | throw (.rejected .notFnHeader)
  let (own, i) ← genericsAt fragment (startOf fragment (trimStart t))
  let some (params, stop) ← groupAt fragment i | throw (.rejected .unterminatedParameters)
  let parameters ← parameters params
  let isMethod ← hasReceiver params
  let returnType ← returnTypeBy (fragment.drop stop)
  return { name := name ++ own, parameters, returnType, isAsync, isMethod }

theorem suffix_of_path? {t name rest : Text} (h : path? t = some (name, rest)) : rest <:+ t := by
  obtain ⟨⟨first, u⟩, hfirst, h⟩ := Option.bind_eq_some_iff.1 h
  have hu := suffix_of_run? hfirst
  cases hsecond : (after? "::".toList u).bind word? with
  | none =>
    simp only [hsecond] at h
    cases h
    exact hu
  | some second =>
    obtain ⟨v, hv, hword⟩ := Option.bind_eq_some_iff.1 hsecond
    simp only [hsecond] at h
    cases h
    exact (suffix_of_run? hword).trans ((suffix_of_after? hv).trans hu)

theorem parameter_eq_ok (t : Text) : parameter t = .ok (Synopsis.Rust.parameter t) := by
  unfold parameter Synopsis.Rust.parameter
  rw [breakTopBy_eq_ok ofText?_allPairs, ok_bind]
  split
  · rfl
  · cases Brackets.all.breakTop? ':' t with
    | none =>
      simp only
      cases after? "mut ".toList t <;> rfl
    | some cut =>
      simp only
      cases after? "mut ".toList (trim cut.1) <;> rfl

theorem parameters_eq_ok (t : Text) : parameters t = .ok (Synopsis.Rust.parameters t) := by
  rw [parameters, splitTop_eq_ok ofText?_allPairs Brackets.usual_all, ok_bind,
    mapM_eq_ok fun p _ => parameter_eq_ok p]
  rfl

theorem hasReceiver_eq_ok (params : Text) : hasReceiver params =
    .ok ((Brackets.all.pieces params).head?.any fun p => (receiver? p).isSome) := by
  rw [hasReceiver, splitTop_eq_ok ofText?_allPairs Brackets.usual_all, ok_bind]
  cases Brackets.all.pieces params <;> rfl

theorem signature_eq (fragment : Text) :
    signature fragment = (Synopsis.Rust.signature fragment).mapError .rejected := by
  simp only [signature, Synopsis.Rust.signature]
  cases hname : (keyword? "fn" (flag "async" (trim fragment)).2).bind path? with
  | none => rfl
  | some named =>
    obtain ⟨name, t⟩ := named
    obtain ⟨u, hu, hpath⟩ := Option.bind_eq_some_iff.1 hname
    have ht : trimStart t <:+ trim fragment := (suffix_trimStart t).trans ((suffix_of_path? hpath).trans
      ((suffix_of_keywordBy? hu).trans (suffix_flag "async" (trim fragment))))
    have hown := (suffix_generics (trimStart t)).trans ht
    simp only [genericsAt_startOf ht, ok_bind, groupAt_startOf hown]
    cases hgroup : group? (generics (trimStart t)).2 with
    | none => rfl
    | some g =>
      have hrest := (suffix_of_group? hgroup).trans hown
      simp only [Option.map_some, ok_bind, parameters_eq_ok, hasReceiver_eq_ok, returnTypeBy_eq_ok,
        drop_startOf hrest]
      rfl

end Synopsis.Offset.Rust
