import Synopsis.Language.GoSignature
import Synopsis.Proofs.Go.Recovery
import Synopsis.Proofs.Offset.Nesting

/-!
# Go by offset

A window is followed by its offset: every character is looked up, and at the brace of a type the
reading goes on at the end of the span that it opens, which lies behind it. Before the word `func` a
character is looked up only where there is one. A receiver and a parameter are split into words; the
parameters have at least one, since no piece of a list is blank.
-/

namespace Synopsis.Offset.Go

open Text
open Synopsis.Go (endsInBracedType windowFrom windowFrom_skip windowFrom_append windowFrom_halves window?
  isCandidate receiverType receiverGenerics resultType typed resolve leading results)

/-! ## Windows -/

/-- The offset at which the window ends that has been read up to an offset. -/
def signatureEnd (t : Text) (parens squares : Nat) (closed : Bool) (j : Nat) : Except Fault Nat := do
  if j < t.length then
    let c ← look t j
    if c = '(' then signatureEnd t (parens + 1) squares closed (j + 1)
    else if c = ')' then
      signatureEnd t (parens - 1) squares (closed || parens - 1 == 0) (j + 1)
    else if c = '[' then signatureEnd t parens (squares + 1) closed (j + 1)
    else if c = ']' then signatureEnd t parens (squares - 1) closed (j + 1)
    else if c = '\n' && closed && parens == 0 && squares == 0 then return j
    else if c = '{' && parens == 0 && squares == 0 then
      if endsInBracedType (t.take j).reverse then
        let (_, stop) ← spanAt '{' '}' t j
        if _h : j < stop then signatureEnd t parens squares closed stop else throw .standstill
      else return j + 1
    else signatureEnd t parens squares closed (j + 1)
  else return t.length
termination_by t.length - j

/-- Whether a word character stands just before an offset; nothing stands before the start. -/
def wordBefore (t : Text) (i : Nat) : Except Fault Bool := do
  if i = 0 then return false else return isWord (← lookBefore t i)

/-- The window at a place of a text. -/
def windowBy (t : Text) (p : Place) : Except Fault (Option (Text × Text)) := do
  match after? "func".toList p.rest with
  | none => return none
  | some rest =>
    if ← wordBefore t p.offset then return none
    else if !rest.head?.any isBlank then return none
    else
      let stop ← signatureEnd t 0 0 false (p.offset + 4)
      return some (slice t p.offset stop, t.drop stop)

/-- The windows of a source text that are declarations. -/
def fragments (source : Text) : Except Fault (List Text) := do
  let t := CommentStyle.slashes.strip source
  return distinct (((← sitesBy (windowBy t) t).map (·.found)).filter isCandidate)

theorem wordBefore_append (a r : Text) :
    wordBefore (a ++ r) a.length = .ok (a.getLast?.any isWord) := by
  rw [wordBefore]
  cases hlast : a.getLast? with
  | none =>
    rw [List.getLast?_eq_none_iff.1 hlast, if_pos List.length_nil]
    rfl
  | some c =>
    rw [if_neg (length_ne_zero_of_getLast? hlast), lookBefore_of_getLast? hlast]
    rfl

theorem braces_cons (r : Text) :
    braces ('{' :: r) = ('{' :: (spanFrom '{' '}' 1 r).1, (spanFrom '{' '}' 1 r).2) := by
  rw [braces, balanced, if_pos List.head?_cons, spanFrom, if_pos rfl]
  rfl

section Brace

variable {a r u v : Text} {closed : Bool}

/-- At the brace of a type a window goes on behind the block. -/
theorem windowFrom_typeBrace (htype : endsInBracedType a.reverse = true)
    (hblock : braces ('{' :: r) = ('{' :: u, v)) :
    (windowFrom 0 a.reverse 0 0 closed ('{' :: r)).1.length =
      u.length + 1 + (windowFrom 0 (a ++ '{' :: u).reverse 0 0 closed v).1.length := by
  have hcut := balanced_append '{' '}' ('{' :: r)
  rw [← braces, hblock] at hcut
  obtain rfl : u ++ v = r := by simpa using hcut
  rw [windowFrom, if_neg (by simp), if_pos (by simp), if_pos htype, hblock, List.length_cons,
    Nat.add_sub_cancel, windowFrom_skip, keep]
  simp only [List.length_cons, List.length_append, List.reverse_append, List.reverse_cons,
    List.append_assoc, List.singleton_append]
  omega

theorem signatureEnd_typeBrace (htype : endsInBracedType a.reverse = true)
    (hblock : braces ('{' :: r) = ('{' :: u, v)) :
    signatureEnd (a ++ '{' :: r) 0 0 closed a.length =
      signatureEnd (a ++ '{' :: r) 0 0 closed (a ++ '{' :: u).length := by
  have htake : (a ++ '{' :: r).take a.length = a := List.take_left
  have hspan := spanAt_append '{' '}' a ('{' :: r)
  rw [← braces, hblock] at hspan
  rw [signatureEnd, if_pos (by simp), look_append, ok_bind, htake, hspan]
  simp [htype]

end Brace

theorem signatureEnd_append (a r : Text) (p s : Nat) (closed : Bool) :
    signatureEnd (a ++ r) p s closed a.length =
      .ok (a.length + (windowFrom 0 a.reverse p s closed r).1.length) := by
  -- by the length of what is left, since the braces of a type are passed in one step
  induction hlen : r.length using Nat.strongRecOn generalizing a r p s closed with
  | ind n ih =>
    cases r with
    | nil =>
      rw [signatureEnd, if_neg (by simp), windowFrom]
      simp
    | cons c r =>
      have hnext (p s : Nat) (closed : Bool) :=
        ih r.length (by simp [← hlen]) (a ++ [c]) r p s closed rfl
      simp only [List.append_assoc, List.singleton_append, List.length_append, List.length_singleton,
        List.reverse_append, List.reverse_singleton] at hnext
      by_cases htype : (c = '{' ∧ p = 0 ∧ s = 0) ∧ endsInBracedType a.reverse = true
      · obtain ⟨⟨rfl, rfl, rfl⟩, htype⟩ := htype
        have hcut := spanFrom_append '{' '}' 1 r
        have hlt := congrArg List.length hcut
        rw [List.length_append] at hlt
        have hbehind := ih (spanFrom '{' '}' 1 r).2.length (by rw [← hlen, List.length_cons]; omega)
          (a ++ '{' :: (spanFrom '{' '}' 1 r).1) (spanFrom '{' '}' 1 r).2 0 0 closed rfl
        rw [List.append_assoc, List.cons_append, hcut] at hbehind
        rw [signatureEnd_typeBrace htype (braces_cons r), hbehind,
          windowFrom_typeBrace htype (braces_cons r), List.length_append, List.length_cons, Nat.add_assoc]
      · rw [signatureEnd, if_pos (by simp), look_append, ok_bind, windowFrom]
        simp only [hnext, show (a ++ c :: r).take a.length = a from List.take_left]
        by_cases hround : c = '('
        · simp [hround, keep, Nat.add_assoc, Nat.add_comm 1]
        by_cases hround' : c = ')'
        · simp [hround', keep, Nat.add_assoc, Nat.add_comm 1]
        by_cases hsquare : c = '['
        · simp [hsquare, keep, Nat.add_assoc, Nat.add_comm 1]
        by_cases hsquare' : c = ']'
        · simp [hsquare', keep, Nat.add_assoc, Nat.add_comm 1]
        rw [if_neg hround, if_neg hround', if_neg hsquare, if_neg hsquare']
        by_cases hline : (c = '\n' && closed && p == 0 && s == 0) = true
        · simp [hline]
        rw [if_neg hline, if_neg hline]
        by_cases hbrace : (c = '{' && p == 0 && s == 0) = true
        · have huntyped : endsInBracedType a.reverse = false := by
            rw [Bool.eq_false_iff]
            intro h
            exact htype ⟨by simpa [and_assoc] using hbrace, h⟩
          simp [hbrace, huntyped]
        · simp [hround, hround', hsquare, hsquare', hbrace, keep, Nat.add_assoc, Nat.add_comm 1]

/-- The window behind a word `func` ends where its rest starts. -/
theorem signatureEnd_func (a rest : Text) :
    signatureEnd (a ++ ("func".toList ++ rest)) 0 0 false (a.length + 4) =
      .ok (a.length + ("func".toList ++ (windowFrom 0 "cnuf".toList 0 0 false rest).1).length) := by
  have hend := signatureEnd_append (a ++ "func".toList) rest 0 0 false
  have hbefore := windowFrom_append 0 [] a.reverse 0 0 false rest
  rw [List.reverse_append, show "func".toList.reverse = [] ++ "cnuf".toList from rfl,
    List.append_assoc, List.append_assoc, hbefore, List.length_append, Nat.add_assoc] at hend
  rwa [List.length_append]

theorem windowBy_between (a b : Text) :
    windowBy (a ++ b) (.between a b) = .ok (window? (.between a b)) := by
  unfold windowBy window?
  simp only [Place.between, Place.isWordStart, notAfter, Bool.not_not]
  cases hfunc : after? "func".toList b with
  | none => cases a.getLast?.any isWord <;> rfl
  | some rest =>
    obtain rfl := after?_eq_some.1 hfunc
    have hcut := windowFrom_halves 0 "cnuf".toList 0 0 false rest
    simp only [wordBefore_append, ok_bind, signatureEnd_func, Option.bind_eq_bind, Option.bind_some]
    generalize windowFrom 0 "cnuf".toList 0 0 false rest = window at hcut ⊢
    have hslice := slice_append a ("func".toList ++ window.1) window.2
    have hdrop : (a ++ (("func".toList ++ window.1) ++ window.2)).drop
        (a.length + ("func".toList ++ window.1).length) = window.2 := by
      rw [List.drop_length_add_append, List.drop_left]
    rw [List.append_assoc, hcut] at hslice hdrop
    rw [hslice, hdrop]
    cases a.getLast?.any isWord with
    | true => rfl
    | false => cases rest.head?.any isBlank <;> rfl

/-- Locating by offset finds the windows of a source. -/
theorem fragments_eq_ok (source : Text) : fragments source = .ok (Synopsis.Go.fragments source) := by
  rw [fragments, sitesBy_eq_ok fun a b ht => ht ▸ windowBy_between a b]
  rfl

/-! ## Parts of a declaration -/

/-- The bare type of a receiver. -/
def receiverTypeBy (receiver : Text) : Except Fault (Option Text) := do
  let head ← look (halves (cutAt? '[' receiver) receiver) 0
  let parts := words head
  if parts.isEmpty then return none
  else
    let last := (← lookLast parts).dropWhile (· == '*')
    return nonempty? (← lookLast (last.splitOn '.'))

/-- The type arguments of a receiver. -/
def receiverGenericsBy (receiver : Text) : Except Fault (Option Text) := do
  match findAt '[' receiver 0 with
  | none => return none
  | some start =>
    let (span, _) ← spanAt '[' ']' receiver start
    return nonempty? (trim (unwrap span))

/-- The last stretch between dots is what follows the last dot. -/
theorem getLast?_splitOn (c : Char) (t : Text) : (t.splitOn c).getLast? = some (afterLast c t) := by
  have hfree : c ∉ afterLast c t := fun h => (mem_of_mem_afterLast h).2 rfl
  have hcut : (t.reverse.dropWhile (· ≠ c)).reverse ++ afterLast c t = t := by
    rw [afterLast, ← List.reverse_append, List.takeWhile_append_dropWhile, List.reverse_reverse]
  rw [dropWhile_eq_cutAt?] at hcut
  generalize afterLast c t = last at hfree hcut ⊢
  cases hfirst : cutAt? c t.reverse with
  | none =>
    obtain rfl : last = t := by simpa [hfirst] using hcut
    rw [List.splitOn_eq_singleton hfree]
    rfl
  | some cut =>
    obtain rfl : cut.2.reverse ++ c :: last = t := by simpa [hfirst] using hcut
    rw [List.splitOn_append_cons_self, List.splitOn_eq_singleton hfree, List.getLast?_concat]

theorem receiverTypeBy_eq_ok (receiver : Text) :
    receiverTypeBy receiver = .ok (receiverType receiver) := by
  unfold receiverTypeBy receiverType
  rw [look_halves_cutAt?, ok_bind]
  cases hlast : (words (before '[' receiver)).getLast? with
  | none =>
    rw [List.getLast?_eq_none_iff.1 hlast]
    rfl
  | some last =>
    have hne : (words (before '[' receiver)).isEmpty = false := by
      rw [List.isEmpty_eq_false_iff]
      intro h
      rw [h] at hlast
      cases hlast
    simp only [hne, lookLast_eq_ok hlast, lookLast_eq_ok (getLast?_splitOn '.' _), ok_bind]
    rfl

theorem receiverGenericsBy_eq_ok (receiver : Text) :
    receiverGenericsBy receiver = .ok (receiverGenerics receiver) := by
  unfold receiverGenericsBy receiverGenerics
  rw [findAt_zero, dropWhile_eq_cutAt?]
  cases hcut : cutAt? '[' receiver with
  | none => rfl
  | some cut =>
    obtain ⟨head, rest⟩ := cut
    obtain rfl := eq_append_of_cutAt? hcut
    have hspan := spanAt_append '[' ']' head ('[' :: rest)
    simp only [Option.map_some, hspan, ok_bind, Option.getD_some]
    rfl

/-! ## Parameters -/

/-- What a text is split into at its first gap. -/
def parts (t : Text) : List Text :=
  match firstWord? t with
  | none => []
  | some (word, none) => [word]
  | some (word, some rest) => [word, rest]

/-- Reads the pieces of a parameter list. -/
def resolveBy : (waiting : List Text) → (pieces : List Text) → Except Fault (List Parameter)
  | waiting, [] => .ok (waiting.map fun n => { name := n })
  | waiting, p :: ps => do
    if (after? "func(".toList p).isSome then
      return { name := "(anonymous)".toList, type := some p } :: (← resolveBy waiting ps)
    else if (parts p).length = 1 then
      resolveBy (waiting ++ [← look (parts p) 0]) ps
    else
      let type := collapse (← look (parts p) 1)
      return typed (waiting ++ [← look (parts p) 0]) type ++ (← resolveBy [] ps)

/-- The parameters of a parameter list. -/
def parameters (t : Text) : Except Fault (List Parameter) := do
  resolveBy [] (← splitTop noAnglePairs t)

theorem resolveBy_eq_ok {pieces : List Text} (h : ∀ p ∈ pieces, firstWord? p ≠ none)
    (waiting : List Text) : resolveBy waiting pieces = .ok (resolve waiting pieces) := by
  induction pieces generalizing waiting with
  | nil => rfl
  | cons p ps ih =>
    rw [List.forall_mem_cons] at h
    have hnext := ih h.2
    rw [resolveBy, resolve]
    split
    · rw [hnext]
      rfl
    · unfold parts
      cases hword : firstWord? p with
      | none => exact absurd hword h.1
      | some word =>
        obtain ⟨name, _ | rest⟩ := word
        · simp [hnext]
        · simp [hnext, look]

/-- No piece of a list is blank, so each has a first word. -/
theorem firstWord?_of_mem_pieces {b : Brackets} (hb : b.Usual) {t p : Text} (h : p ∈ b.pieces t) :
    firstWord? p ≠ none := by
  have hpiece := (Brackets.row_pieces hb t).piece p h
  intro hnone
  have hblank : trimStart p = [] := by
    unfold firstWord? at hnone
    split at hnone
    · assumption
    · cases hnone
  refine hpiece.ne_nil ?_
  rw [← hpiece.trimmed, trim, hblank]
  rfl

theorem parameters_eq_ok (t : Text) : parameters t = .ok (Synopsis.Go.parameters t) := by
  rw [parameters, splitTop_eq_ok ofText?_noAnglePairs Brackets.usual_noAngle, ok_bind,
    resolveBy_eq_ok fun p hp => firstWord?_of_mem_pieces Brackets.usual_noAngle hp]
  rfl

/-! ## Declarations -/

/-- A bracketed group at the start of a text, trimmed inside, and the trimmed rest. -/
def leadingBy (opener closer : Char) (t : Text) : Except Fault (Option Text × Text) := do
  if t.head? = some opener then
    let (span, stop) ← spanAt opener closer t 0
    return (some (trim (unwrap span)), trim (t.drop stop))
  else return (none, t)

/-- The result type that the text after a parameter list announces. -/
def resultsBy (t : Text) : Except Fault (Option Text) := do
  let t := trim (← if t.getLast? = some '{' then pure t.dropLast
    else look (halves (cutAt? '\n' t) t) 0)
  if t.head? = some '(' then
    let (span, _) ← spanAt '(' ')' t 0
    return (resultType (unwrap span)).map fun r => '(' :: r ++ [')']
  else return resultType t

/-- The signature that a window declares. -/
def signature (fragment : Text) : Except Fault Signature := do
  let some t := after? "func".toList (trim fragment) | throw (.rejected .notFunc)
  let (receiver, t) ← leadingBy '(' ')' (trim t)
  let some (name, t) := name? t | throw (.rejected .missingFunctionName)
  let (own, t) ← leadingBy '[' ']' (trim t)
  if t.head? ≠ some '(' then throw (.rejected .missingParameters)
  let some (params, stop) ← groupAt t 0 | throw (.rejected .unterminatedParameters)
  let returnType ← resultsBy (trim (t.drop stop))
  let receiver := present? receiver
  let className ← match receiver with
    | some r => receiverTypeBy r
    | none => pure none
  let generics ← match present? own, receiver with
    | some g, _ => pure (some g)
    | none, some r => receiverGenericsBy r
    | none, none => pure none
  let parameters ← parameters params
  return {
    name := match generics with
      | some g => name ++ '[' :: g ++ [']']
      | none => name
    parameters
    returnType
    className }

theorem leadingBy_eq_ok (opener closer : Char) (t : Text) :
    leadingBy opener closer t = .ok (leading opener closer t) := by
  unfold leadingBy leading
  split
  · rw [spanAt_zero, ok_bind]
    simp only [drop_startOf (suffix_balanced opener closer t)]
    rfl
  · rfl

theorem resultsBy_eq_ok (t : Text) : resultsBy t = .ok (results t) := by
  unfold resultsBy results
  simp only [look_halves_cutAt?, spanAt_zero, ok_bind, pure_eq_ok]
  split <;> split <;> rfl

theorem signature_eq (fragment : Text) :
    signature fragment = (Synopsis.Go.signature fragment).mapError .rejected := by
  simp only [signature, Synopsis.Go.signature]
  cases after? "func".toList (trim fragment) with
  | none => rfl
  | some t =>
    simp only [leadingBy_eq_ok, ok_bind]
    obtain ⟨receiver, t⟩ := leading '(' ')' (trim t)
    cases name? t with
    | none => rfl
    | some named =>
      obtain ⟨name, t⟩ := named
      simp only
      obtain ⟨own, t⟩ := leading '[' ']' (trim t)
      by_cases hopen : t.head? ≠ some '('
      · simp only [if_pos hopen]
        rfl
      · simp only [if_neg hopen, groupAt_zero]
        cases hgroup : group? t with
        | none => rfl
        | some g =>
          simp only [Option.map_some, ok_bind, drop_startOf (suffix_of_group? hgroup), resultsBy_eq_ok,
            parameters_eq_ok]
          cases present? receiver <;> cases present? own <;>
            simp [receiverTypeBy_eq_ok, receiverGenericsBy_eq_ok] <;> rfl

end Synopsis.Offset.Go
