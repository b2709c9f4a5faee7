import Synopsis.Language.JavaSignature
import Synopsis.Proofs.Java.Chunk
import Synopsis.Proofs.Java.Composition
import Synopsis.Proofs.Offset.Nesting

/-!
# Java by offset

Literals, groups and whole bodies are run through with an offset that only grows: a literal ends
behind its quote, a group behind its opener. A body is read member by member, with the offset at which
the current header started, and the body of a type inside it on its own. Behind a block the character
before its end is looked up, which is at least the opening brace.
-/

namespace Synopsis.Offset.Java

open Text
open Synopsis.Java (length_lt_of_afterModifier? Entry afterTextBlock afterQuoted afterLiteral
  isQuote groupFrom groupFrom_append groupFrom_literal group headerFrom headerFrom_skip literalTail
  blockBody nextChunk? entries chunkEntries entries_of_nextChunk? entries_of_nextChunk?_eq_none
  ne_escape length_group_pos length_blockBody_le stripAnnotations typeAt? typeName? modifiers
  afterModifier? skipModifiers splitName? isTypeChar member? splitOwner finalAt? indexBrackets)

/-! ## Literals -/

/-- The offset just past a text block that goes on at an offset. -/
def textBlockEnd (t : Text) (j : Nat) : Except Fault Nat := do
  if j < t.length then
    if (← look t j) = '\\' then textBlockEnd t (j + 2)
    else if (after? "\"\"\"".toList (t.drop j)).isSome then return j + 3
    else textBlockEnd t (j + 1)
  else return t.length
termination_by t.length - j

/-- The offset just past a literal in the given quotes that goes on at an offset. -/
def quotedEnd (quote : Char) (t : Text) (j : Nat) : Except Fault Nat := do
  if j < t.length then
    let c ← look t j
    if c = '\\' then quotedEnd quote t (j + 2)
    else if c = quote || c = '\n' then return j + 1
    else quotedEnd quote t (j + 1)
  else return t.length
termination_by t.length - j

/-- The offset just past the literal at an offset. -/
def literalEnd (t : Text) (i : Nat) : Except Fault Nat := do
  if (after? "\"\"\"".toList (t.drop i)).isSome then textBlockEnd t (i + 3)
  else quotedEnd (← look t i) t (i + 1)

theorem suffix_afterTextBlock (t : Text) : afterTextBlock t <:+ t := by
  fun_induction afterTextBlock t with
  | case1 => exact List.suffix_refl _
  | case2 => exact List.nil_suffix
  | case3 c t ih => exact ih.trans ((List.suffix_cons c t).trans (List.suffix_cons _ _))
  | case4 t => exact ((List.suffix_cons _ t).trans (List.suffix_cons _ _)).trans (List.suffix_cons _ _)
  | case5 c t _ _ _ ih => exact ih.trans (List.suffix_cons c t)

theorem suffix_afterQuoted (quote : Char) (t : Text) : afterQuoted quote t <:+ t := by
  fun_induction afterQuoted quote t with
  | case1 => exact List.suffix_refl _
  | case2 => exact List.nil_suffix
  | case3 c t ih => exact ih.trans ((List.suffix_cons c t).trans (List.suffix_cons _ _))
  | case4 c t _ _ _ => exact List.suffix_cons c t
  | case5 c t _ _ _ ih => exact ih.trans (List.suffix_cons c t)

/-- A literal takes at least its opening quote. -/
theorem suffix_afterLiteral (c : Char) (t : Text) : afterLiteral (c :: t) <:+ t := by
  generalize hr : c :: t = r
  fun_cases afterLiteral r with
  | case1 => cases hr
  | case2 u =>
    cases hr
    exact (suffix_afterTextBlock u).trans ((List.suffix_cons _ u).trans (List.suffix_cons _ _))
  | case3 quote u _ =>
    cases hr
    exact suffix_afterQuoted c t

theorem isSome_after?_quotes {t : Text} :
    (after? "\"\"\"".toList t).isSome = true ↔ ∃ u, t = '"' :: '"' :: '"' :: u := by
  rw [Option.isSome_iff_exists]
  exact exists_congr fun u => after?_eq_some

theorem textBlockEnd_startOf {t r : Text} (h : r <:+ t) :
    textBlockEnd t (startOf t r) = .ok (startOf t (afterTextBlock r)) := by
  fun_induction afterTextBlock r with
  | case1 =>
    rw [startOf_nil, textBlockEnd, if_neg (Nat.lt_irrefl _)]
    rfl
  | case2 =>
    -- an escape at the very end leads beyond the text
    have hend := startOf_cons h
    rw [startOf_nil] at hend
    rw [textBlockEnd, if_pos (startOf_cons_lt h), look_startOf h, ok_bind, if_pos rfl, textBlockEnd,
      if_neg (by omega), startOf_nil]
    rfl
  | case3 c r ih =>
    have htail := (List.suffix_cons _ _).trans h
    have hnext := ih ((List.suffix_cons c r).trans htail)
    rw [startOf_cons htail, startOf_cons h] at hnext
    rw [textBlockEnd, if_pos (startOf_cons_lt h), look_startOf h, ok_bind, if_pos rfl, hnext]
  | case4 r =>
    have htail := (List.suffix_cons _ _).trans h
    have htail' := (List.suffix_cons _ _).trans htail
    rw [textBlockEnd, if_pos (startOf_cons_lt h), look_startOf h, ok_bind, if_neg (by decide),
      drop_startOf h, if_pos (isSome_after?_quotes.2 ⟨r, rfl⟩), startOf_cons htail', startOf_cons htail,
      startOf_cons h]
    rfl
  | case5 c r hlast hescape hquotes ih =>
    have hnext := ih ((List.suffix_cons c r).trans h)
    have hplain : ¬ (after? "\"\"\"".toList (c :: r)).isSome = true := by
      rw [isSome_after?_quotes]
      rintro ⟨u, hu⟩
      exact hquotes u (List.cons.inj hu).1 (List.cons.inj hu).2
    rw [startOf_cons h] at hnext
    rw [textBlockEnd, if_pos (startOf_cons_lt h), look_startOf h, ok_bind,
      if_neg (ne_escape hlast hescape), drop_startOf h, if_neg hplain, hnext]

theorem quotedEnd_startOf (quote : Char) {t r : Text} (h : r <:+ t) :
    quotedEnd quote t (startOf t r) = .ok (startOf t (afterQuoted quote r)) := by
  fun_induction afterQuoted quote r with
  | case1 =>
    rw [startOf_nil, quotedEnd, if_neg (Nat.lt_irrefl _)]
    rfl
  | case2 =>
    have hend := startOf_cons h
    rw [startOf_nil] at hend
    rw [quotedEnd, if_pos (startOf_cons_lt h), look_startOf h, ok_bind, if_pos rfl, quotedEnd,
      if_neg (by omega), startOf_nil]
    rfl
  | case3 c r ih =>
    have htail := (List.suffix_cons _ _).trans h
    have hnext := ih ((List.suffix_cons c r).trans htail)
    rw [startOf_cons htail, startOf_cons h] at hnext
    rw [quotedEnd, if_pos (startOf_cons_lt h), look_startOf h, ok_bind, if_pos rfl, hnext]
  | case4 c r hlast hescape hquote =>
    rw [quotedEnd, if_pos (startOf_cons_lt h), look_startOf h, ok_bind,
      if_neg (ne_escape hlast hescape), if_pos hquote, startOf_cons h]
    rfl
  | case5 c r hlast hescape hquote ih =>
    have hnext := ih ((List.suffix_cons c r).trans h)
    rw [startOf_cons h] at hnext
    rw [quotedEnd, if_pos (startOf_cons_lt h), look_startOf h, ok_bind,
      if_neg (ne_escape hlast hescape), if_neg hquote, hnext]

theorem literalEnd_startOf {t r : Text} {c : Char} (h : c :: r <:+ t) :
    literalEnd t (startOf t (c :: r)) = .ok (startOf t (afterLiteral (c :: r))) := by
  have hrest := (List.suffix_cons c r).trans h
  rw [literalEnd, drop_startOf h, look_startOf h]
  by_cases hquotes : (after? "\"\"\"".toList (c :: r)).isSome = true
  · obtain ⟨u, hu⟩ := isSome_after?_quotes.1 hquotes
    obtain ⟨rfl, rfl⟩ := List.cons.inj hu
    have htail := (List.suffix_cons _ _).trans hrest
    have hblock := textBlockEnd_startOf ((List.suffix_cons _ u).trans htail)
    rw [startOf_cons htail, startOf_cons hrest, startOf_cons h] at hblock
    rw [if_pos hquotes, hblock]
    rfl
  · have hquoted := quotedEnd_startOf c hrest
    have hliteral : afterLiteral (c :: r) = afterQuoted c r := by
      rw [afterLiteral]
      rintro u rfl rfl
      exact hquotes (isSome_after?_quotes.2 ⟨u, rfl⟩)
    rw [startOf_cons h] at hquoted
    rw [if_neg hquotes, ok_bind, hquoted, hliteral]

/-! ## Groups -/

/-- The offset just past a group of which `depth` delimiters are open at an offset. -/
def groupEnd (opener closer : Char) (t : Text) (depth : Int) (j : Nat) : Except Fault Nat := do
  if j < t.length then
    let c ← look t j
    if isQuote c then
      let stop ← literalEnd t j
      if _h : j < stop then groupEnd opener closer t depth stop else throw .standstill
    else if c = opener then groupEnd opener closer t (depth + 1) (j + 1)
    else if c = closer then
      if depth - 1 = 0 then return j + 1 else groupEnd opener closer t (depth - 1) (j + 1)
    else groupEnd opener closer t depth (j + 1)
  else return t.length
termination_by t.length - j

theorem literalEnd_lt {t r : Text} {c : Char} (h : c :: r <:+ t) :
    startOf t (c :: r) < startOf t (afterLiteral (c :: r)) := by
  refine startOf_lt_startOf h ?_
  have hlen := (suffix_afterLiteral c r).length_le
  rw [List.length_cons]
  omega

/-- A group goes on behind a literal. -/
theorem groupFrom_afterLiteral (opener closer : Char) (d : Int) {c : Char} (hc : isQuote c = true)
    (r : Text) : (groupFrom opener closer 0 d (c :: r)).2 =
      (groupFrom opener closer 0 d (afterLiteral (c :: r))).2 := by
  obtain ⟨s, hs⟩ := suffix_afterLiteral c r
  have hgroup := groupFrom_literal opener closer d hc (s := s) (by rw [hs])
  rw [hs] at hgroup
  rw [hgroup]

theorem groupEnd_startOf (opener closer : Char) {t r : Text} (h : r <:+ t) (d : Int) :
    groupEnd opener closer t d (startOf t r) = .ok (startOf t (groupFrom opener closer 0 d r).2) := by
  -- by the length of what is left, since a literal is passed in one step
  induction hlen : r.length using Nat.strongRecOn generalizing r d with
  | ind n ih =>
    cases r with
    | nil =>
      rw [startOf_nil, groupEnd, if_neg (Nat.lt_irrefl _), groupFrom]
      simp
    | cons c r =>
      have hrest := (List.suffix_cons c r).trans h
      rw [List.length_cons] at hlen
      rw [groupEnd, if_pos (startOf_cons_lt h), look_startOf h, ok_bind]
      by_cases hquote : isQuote c = true
      · have hle := (suffix_afterLiteral c r).length_le
        have hliteral := ih (afterLiteral (c :: r)).length (by omega)
          ((suffix_afterLiteral c r).trans hrest) d rfl
        rw [if_pos hquote, literalEnd_startOf h, ok_bind, dif_pos (literalEnd_lt h), hliteral,
          groupFrom_afterLiteral opener closer d hquote]
      · have hnext (d : Int) := ih r.length (by omega) hrest d rfl
        rw [startOf_cons h] at hnext
        rw [if_neg hquote, groupFrom, if_neg hquote]
        simp only [hnext, keep]
        split
        · rfl
        · split
          · by_cases hd : d = 1
            · rw [if_pos (by omega), if_pos hd, startOf_cons h]
              rfl
            · rw [if_neg (by omega), if_neg hd]
          · rfl

/-! ## Members -/

/-- The type that a header declares. -/
def typeNameBy (header : Text) : Except Fault (Option Text) := do
  let t := stripAnnotations header
  let t ← look (halves (cutAt? '(' t) t) 0
  return if t.contains '=' then none else (firstSite? typeAt? t).map (·.found)

/-- Drops modifiers and type parameters from the front of a text. -/
def withoutModifiers (t : Text) : Except Fault Text := do
  match modifiers.findSome? (wholeWord? · t) with
  | some rest =>
    let next := trimStart rest
    if _h : next.length < t.length then withoutModifiers next else throw .standstill
  | none =>
    if t.head? = some '<' then
      let (_, stop) ← spanAt '<' '>' t 0
      let next := trimStart (t.drop stop)
      if _h : next.length < t.length then withoutModifiers next else throw .standstill
    else return t
termination_by t.length
decreasing_by
  · exact _h
  · exact _h

/-- The member that a header declares for its owner. -/
def memberBy (owner header : Text) : Except Fault (Option Entry) := do
  let t := trim (stripAnnotations header)
  match findAt '(' t 0 with
  | none => return none
  | some paren =>
    let head := t.take paren
    if head.contains '=' then return none
    match ← groupAt t paren with
    | none => return none
    | some (params, stop) =>
      let tail := trim (t.drop stop)
      if !tail.isEmpty && (after? "throws".toList tail).isNone && (after? "default".toList tail).isNone
      then return none
      match splitName? head with
      | none => return none
      | some (lead, name) =>
        let returnType := collapse (← withoutModifiers lead)
        if returnType.isEmpty then
          return if name = owner then some (.member none name (collapse params) owner) else none
        else return if returnType.all isTypeChar then
          some (.member (some returnType) name (collapse params) owner) else none

theorem typeNameBy_eq_ok (header : Text) : typeNameBy header = .ok (typeName? header) := by
  rw [typeNameBy, look_halves_cutAt?]
  rfl

theorem withoutModifiers_eq_ok (t : Text) : withoutModifiers t = .ok (skipModifiers t) := by
  fun_induction skipModifiers t with
  | case1 t rest hmodifier ih =>
    have hlt := length_lt_of_afterModifier? hmodifier
    unfold afterModifier? at hmodifier
    split at hmodifier
    · next r hword =>
      cases hmodifier
      rw [withoutModifiers, hword]
      simp only [dif_pos hlt, ih]
    · next hword =>
      split at hmodifier
      · next hopen =>
        cases hmodifier
        rw [withoutModifiers, hword]
        simp only [if_pos hopen, spanAt_zero, ok_bind, drop_startOf (suffix_balanced '<' '>' t),
          dif_pos hlt, ih]
      · cases hmodifier
  | case2 t hnone =>
    unfold afterModifier? at hnone
    split at hnone
    · cases hnone
    · next hword =>
      split at hnone
      · cases hnone
      · next hopen =>
        rw [withoutModifiers, hword]
        simp only [if_neg hopen]
        rfl

/-- The parameter list at the first parenthesis, read at its offset. -/
theorem groupAt_of_cutAt? {t head rest : Text} (hcut : cutAt? '(' t = some (head, rest)) :
    groupAt t head.length =
      .ok ((group? (t.drop head.length)).map fun g => (g.1, startOf t g.2)) := by
  have ht := eq_append_of_cutAt? hcut
  have hparen : '(' :: rest <:+ t := ht ▸ List.suffix_append head ('(' :: rest)
  have hstart : startOf t ('(' :: rest) = head.length := by rw [ht, startOf_append]
  rw [← hstart, groupAt_startOf hparen, drop_startOf hparen]

theorem memberBy_eq_ok (owner header : Text) : memberBy owner header = .ok (member? owner header) := by
  unfold memberBy member?
  generalize trim (stripAnnotations header) = t
  simp only [findAt_zero, before_eq_cutAt?]
  cases hcut : cutAt? '(' t with
  | none =>
    simp only [Option.map_none, Option.getD_none, List.drop_length]
    cases t.contains '=' <;> rfl
  | some cut =>
    obtain ⟨head, rest⟩ := cut
    have htake : t.take head.length = head := by rw [eq_append_of_cutAt? hcut, List.take_left]
    simp only [Option.map_some, Option.getD_some, groupAt_of_cutAt? hcut, htake, ok_bind]
    cases head.contains '=' with
    | true => rfl
    | false =>
      cases hparams : group? (t.drop head.length) with
      | none => rfl
      | some g =>
        have hsuffix := (suffix_of_group? hparams).trans (List.drop_suffix head.length t)
        simp only [Option.map_some, drop_startOf hsuffix,
          withoutModifiers_eq_ok, Option.bind_eq_bind, Option.bind_some, Bool.false_eq_true, if_false]
        split
        · rfl
        · cases splitName? head with
          | none => rfl
          | some named =>
            simp only [ok_bind, Option.bind_some]
            split <;> rfl

/-! ## Bodies -/

/-- The text inside a block between two offsets: without its braces, or without the opening one when
    none closes it. -/
def bodyBetween (t : Text) (start stop : Nat) : Except Fault Text := do
  let last ← lookBefore t stop
  return slice t (start + 1) (if last = '}' && start < stop - 1 then stop - 1 else stop)

/-- The entries of a header. -/
def headerEntries (owner : Option Text) (header : Text) : Except Fault (List Entry) := do
  match owner with
  | none => return []
  | some owner => return (← memberBy owner header).toList

/-- The entries of a body from an offset on, the current header having started at `start`. -/
def scanBody (t : Text) (owner : Option Text) (start i : Nat) : Except Fault (List Entry) := do
  if i < t.length then
    let c ← look t i
    if isQuote c then
      let stop ← literalEnd t i
      if _h : i < stop then scanBody t owner start stop else throw .standstill
    else if c = '(' then
      let stop ← groupEnd '(' ')' t 0 i
      if _h : i < stop then scanBody t owner start stop else throw .standstill
    else if c = ';' then
      return (← headerEntries owner (slice t start i)) ++ (← scanBody t owner (i + 1) (i + 1))
    else if c = '{' then
      let stop ← groupEnd '{' '}' t 0 i
      let found ← match ← typeNameBy (slice t start i) with
        | some name => do
          let body ← bodyBetween t i stop
          if _h : body.length < t.length then
            pure (.type name :: (← scanBody body (some name) 0 0))
          else throw .standstill
        | none => headerEntries owner (slice t start i)
      if _h : i < stop then return found ++ (← scanBody t owner stop stop) else throw .standstill
    else scanBody t owner start (i + 1)
  else return []
termination_by (t.length, t.length - i)

theorem slice_startOf {t h r : Text} (hr : h ++ r <:+ t) :
    slice t (startOf t (h ++ r)) (startOf t r) = h := by
  obtain ⟨a, rfl⟩ := hr
  have hstart : startOf (a ++ (h ++ r)) r = a.length + h.length := by
    rw [← List.append_assoc, startOf_append, List.length_append]
  rw [startOf_append, hstart, slice_append]

/-- A block has its opening brace before its end, so there is a last character to look up. -/
theorem bodyBetween_startOf {t block v : Text} (h : block ++ v <:+ t) (hne : block ≠ []) :
    bodyBetween t (startOf t (block ++ v)) (startOf t v) = .ok (blockBody block) := by
  obtain ⟨a, rfl⟩ := h
  obtain ⟨x, m, rfl⟩ := List.exists_cons_of_ne_nil hne
  have hstop : startOf (a ++ (x :: m ++ v)) v = a.length + 1 + m.length := by
    rw [← List.append_assoc, startOf_append, List.length_append, List.length_cons]
    omega
  rw [bodyBetween, startOf_append, hstop, blockBody]
  rcases List.eq_nil_or_concat m with rfl | ⟨m, y, rfl⟩
  · simp [slice]
  · rw [List.concat_eq_append] at hstop ⊢
    have hlast : (x :: (m ++ [y])).getLast? = some y := by
      rw [← List.cons_append, List.getLast?_concat]
    have hlook := lookBefore_append (a ++ x :: m) v y
    have hinner := slice_append (a ++ [x]) m (y :: v)
    have hall := slice_append (a ++ [x]) (m ++ [y]) v
    simp only [List.append_assoc, List.cons_append, List.nil_append, List.length_append,
      List.length_cons, List.length_nil, Nat.zero_add, Nat.add_assoc,
      Nat.add_comm 1] at hlook hinner hall ⊢
    rw [hlook, ok_bind, hlast]
    by_cases hy : y = '}'
    · have hbrace : a.length + (m.length + (1 + 1)) - 1 = a.length + (m.length + 1) := by omega
      rw [if_pos (by simp [hy]), if_pos (by simp [hy]), hbrace]
      simpa [unwrap] using hinner
    · rw [if_neg (by simp [hy]), if_neg (by simp [hy])]
      simpa using hall

/-- What a body gives of which the header `h` is read and `r` is left. -/
def restEntries (owner : Option Text) (h r : Text) : List Entry :=
  match (headerFrom 0 r).2 with
  | ';' :: rest => chunkEntries owner (.statement (h ++ (headerFrom 0 r).1)) ++ entries owner rest
  | '{' :: rest =>
    chunkEntries owner (.block (h ++ (headerFrom 0 r).1) (blockBody (group '{' '}' ('{' :: rest)).1)) ++
      entries owner (group '{' '}' ('{' :: rest)).2
  | _ => []

theorem restEntries_start (owner : Option Text) (t : Text) :
    restEntries owner [] t = entries owner t := by
  unfold restEntries
  split
  · next rest hrest =>
    exact (entries_of_nextChunk? (by simp only [nextChunk?, hrest, List.nil_append])).symm
  · next rest hrest =>
    exact (entries_of_nextChunk? (by simp only [nextChunk?, hrest, List.nil_append])).symm
  · next hstatement hblock =>
    refine (entries_of_nextChunk?_eq_none ?_).symm
    simp only [nextChunk?]

/-- A part of a header that has been read counts as read. -/
theorem restEntries_append {u v : Text}
    (hpass : headerFrom 0 (u ++ v) = (u ++ (headerFrom 0 v).1, (headerFrom 0 v).2))
    (owner : Option Text) (h : Text) : restEntries owner h (u ++ v) = restEntries owner (h ++ u) v := by
  simp only [restEntries, hpass, List.append_assoc]

theorem headerFrom_literal {c : Char} {s t : Text} (hc : isQuote c = true)
    (h : afterLiteral (c :: (s ++ t)) = t) :
    headerFrom 0 (c :: s ++ t) = (c :: s ++ (headerFrom 0 t).1, (headerFrom 0 t).2) := by
  have htail : literalTail (c :: (s ++ t)) = s.length := by
    rw [literalTail, h, List.length_cons, List.length_append]
    omega
  rw [List.cons_append, headerFrom, if_pos hc, htail, headerFrom_skip]
  rfl

theorem headerFrom_group {s t : Text} (h : group '(' ')' ('(' :: (s ++ t)) = ('(' :: s, t)) :
    headerFrom 0 ('(' :: s ++ t) = ('(' :: s ++ (headerFrom 0 t).1, (headerFrom 0 t).2) := by
  rw [List.cons_append, headerFrom, if_neg (by decide), if_pos rfl, h, List.length_cons,
    Nat.add_sub_cancel, headerFrom_skip]
  rfl

theorem group_cons {opener closer : Char} (h : isQuote opener = false) (r : Text) :
    group opener closer (opener :: r) =
      (opener :: (groupFrom opener closer 0 1 r).1, (groupFrom opener closer 0 1 r).2) := by
  rw [group, groupFrom, h, if_neg Bool.false_ne_true, if_pos rfl]
  rfl

theorem group_append (opener closer : Char) (t : Text) :
    (group opener closer t).1 ++ (group opener closer t).2 = t := groupFrom_append opener closer 0 0 t

theorem suffix_group (opener closer : Char) (t : Text) : (group opener closer t).2 <:+ t :=
  ⟨_, group_append opener closer t⟩

/-- Neither the inside of a block nor what follows it has the opening brace. -/
theorem length_block_le (r : Text) : (blockBody (group '{' '}' ('{' :: r)).1).length ≤ r.length ∧
    (group '{' '}' ('{' :: r)).2.length ≤ r.length := by
  have hsum := congrArg List.length (group_append '{' '}' ('{' :: r))
  have hpos := @length_group_pos '{' '}' rfl r
  have hinner := length_blockBody_le (group '{' '}' ('{' :: r)).1
  rw [List.length_append, List.length_cons] at hsum
  omega

theorem bodyBetween_group {t r : Text} (h : '{' :: r <:+ t) :
    bodyBetween t (startOf t ('{' :: r)) (startOf t (group '{' '}' ('{' :: r)).2) =
      .ok (blockBody (group '{' '}' ('{' :: r)).1) := by
  have hcut := group_append '{' '}' ('{' :: r)
  have hne := List.ne_nil_of_length_pos (@length_group_pos '{' '}' rfl r)
  have hinner := bodyBetween_startOf (hcut.symm ▸ h) hne
  rwa [hcut] at hinner

theorem restEntries_statement (owner : Option Text) (h r : Text) :
    restEntries owner h (';' :: r) = chunkEntries owner (.statement h) ++ entries owner r := by
  have hheader : headerFrom 0 (';' :: r) = ([], ';' :: r) := rfl
  simp only [restEntries, hheader, List.append_nil]

theorem restEntries_block (owner : Option Text) (h r : Text) :
    restEntries owner h ('{' :: r) =
      chunkEntries owner (.block h (blockBody (group '{' '}' ('{' :: r)).1)) ++
        entries owner (group '{' '}' ('{' :: r)).2 := by
  have hheader : headerFrom 0 ('{' :: r) = ([], '{' :: r) := rfl
  simp only [restEntries, hheader, List.append_nil]

theorem headerEntries_eq_ok (owner : Option Text) (header : Text) :
    headerEntries owner header = .ok (owner.bind (member? · header)).toList := by
  cases owner with
  | none => rfl
  | some owner =>
    rw [headerEntries, memberBy_eq_ok]
    rfl

/-! ### Steps of a scan -/

section Step

variable {t r : Text} {c : Char} {owner : Option Text} {start : Nat}

theorem scanBody_literal (h : c :: r <:+ t) (hc : isQuote c = true) :
    scanBody t owner start (startOf t (c :: r)) =
      scanBody t owner start (startOf t (afterLiteral (c :: r))) := by
  rw [scanBody, if_pos (startOf_cons_lt h), look_startOf h, ok_bind, if_pos hc, literalEnd_startOf h,
    ok_bind, dif_pos (literalEnd_lt h)]

theorem groupEnd_lt {opener closer : Char} (h : opener :: r <:+ t) (hquote : isQuote opener = false) :
    startOf t (opener :: r) < startOf t (group opener closer (opener :: r)).2 := by
  refine startOf_lt_startOf h ?_
  have hpos := @length_group_pos opener closer hquote r
  have hcut := congrArg List.length (group_append opener closer (opener :: r))
  rw [List.length_append] at hcut
  omega

theorem scanBody_group (h : '(' :: r <:+ t) :
    scanBody t owner start (startOf t ('(' :: r)) =
      scanBody t owner start (startOf t (group '(' ')' ('(' :: r)).2) := by
  have hlt : startOf t ('(' :: r) < startOf t (group '(' ')' ('(' :: r)).2 := groupEnd_lt h rfl
  rw [scanBody, if_pos (startOf_cons_lt h), look_startOf h, ok_bind, if_neg (by decide), if_pos rfl,
    groupEnd_startOf '(' ')' h, ok_bind]
  exact dif_pos hlt

theorem scanBody_statement (h : ';' :: r <:+ t) :
    scanBody t owner start (startOf t (';' :: r)) = (do
      return (← headerEntries owner (slice t start (startOf t (';' :: r)))) ++
        (← scanBody t owner (startOf t r) (startOf t r))) := by
  rw [scanBody, if_pos (startOf_cons_lt h), look_startOf h, ok_bind, if_neg (by decide),
    if_neg (by decide), if_pos rfl, startOf_cons h]

theorem scanBody_plain (h : c :: r <:+ t) (hc : ¬ isQuote c = true) (hround : c ≠ '(')
    (hsemi : c ≠ ';') (hcurly : c ≠ '{') :
    scanBody t owner start (startOf t (c :: r)) = scanBody t owner start (startOf t r) := by
  rw [scanBody, if_pos (startOf_cons_lt h), look_startOf h, ok_bind, if_neg hc, if_neg hround,
    if_neg hsemi, if_neg hcurly, startOf_cons h]

theorem scanBody_block (h : '{' :: r <:+ t) :
    scanBody t owner start (startOf t ('{' :: r)) = (do
      let found ← match ← typeNameBy (slice t start (startOf t ('{' :: r))) with
        | some name => do
          let body ← bodyBetween t (startOf t ('{' :: r)) (startOf t (group '{' '}' ('{' :: r)).2)
          if body.length < t.length then
            pure (.type name :: (← scanBody body (some name) 0 0))
          else throw .standstill
        | none => headerEntries owner (slice t start (startOf t ('{' :: r)))
      return found ++ (← scanBody t owner (startOf t (group '{' '}' ('{' :: r)).2)
        (startOf t (group '{' '}' ('{' :: r)).2))) := by
  have hlt : startOf t ('{' :: r) < startOf t (group '{' '}' ('{' :: r)).2 := groupEnd_lt h rfl
  rw [scanBody, if_pos (startOf_cons_lt h), look_startOf h, ok_bind, if_neg (by decide),
    if_neg (by decide), if_neg (by decide), if_pos rfl, groupEnd_startOf '{' '}' h, ok_bind]
  simp only [group] at hlt ⊢
  simp only [dif_pos hlt, dite_eq_ite]

end Step

/-! ### The whole scan -/

/-- A scan in the middle of a body, where `h` is the header read so far and `r` is left. -/
theorem scanBody_startOf {t : Text}
    (hbody : ∀ body, body.length < t.length →
      ∀ owner, scanBody body owner 0 0 = .ok (entries owner body))
    (owner : Option Text) {h r : Text} (hr : h ++ r <:+ t) :
    scanBody t owner (startOf t (h ++ r)) (startOf t r) = .ok (restEntries owner h r) := by
  -- by the length of what is left, since literals, groups and blocks are passed in one step
  induction hlen : r.length using Nat.strongRecOn generalizing h r with
  | ind n ih =>
    have hsuffix : r <:+ t := (List.suffix_append h r).trans hr
    cases r with
    | nil =>
      rw [startOf_nil, scanBody, if_neg (Nat.lt_irrefl _)]
      rfl
    | cons c r =>
      rw [List.length_cons] at hlen
      have hpart {u v : Text} (hcut : c :: r = u ++ v) (hlt : v.length < n)
          (hpass : headerFrom 0 (u ++ v) = (u ++ (headerFrom 0 v).1, (headerFrom 0 v).2)) :
          scanBody t owner (startOf t (h ++ c :: r)) (startOf t v) =
            .ok (restEntries owner h (c :: r)) := by
        rw [hcut, ← List.append_assoc] at hr
        rw [hcut, restEntries_append hpass, ← List.append_assoc]
        exact ih v.length hlt hr rfl
      have hafter {v : Text} (hv : v <:+ t) (hlt : v.length < n) :
          scanBody t owner (startOf t v) (startOf t v) = .ok (entries owner v) := by
        rw [← restEntries_start]
        exact ih v.length hlt (h := []) hv rfl
      by_cases hquote : isQuote c = true
      · obtain ⟨s, hs⟩ := suffix_afterLiteral c r
        have hle := (suffix_afterLiteral c r).length_le
        rw [scanBody_literal hsuffix hquote]
        exact hpart (by rw [List.cons_append, hs]) (by omega) (headerFrom_literal hquote (by rw [hs]))
      by_cases hround : c = '('
      · subst hround
        have hcut := groupFrom_append '(' ')' 0 1 r
        have hrest : (groupFrom '(' ')' 0 1 r).2 <:+ r := ⟨_, hcut⟩
        have hle := hrest.length_le
        have hgroup : group '(' ')' ('(' :: r) = _ := group_cons rfl r
        rw [scanBody_group hsuffix, hgroup]
        exact hpart (by rw [List.cons_append, hcut]) (by simp only; omega)
          (headerFrom_group (by rw [hcut, hgroup]))
      by_cases hsemi : c = ';'
      · subst hsemi
        have hrest := (List.suffix_cons ';' r).trans hsuffix
        rw [scanBody_statement hsuffix, slice_startOf hr, headerEntries_eq_ok, ok_bind,
          hafter hrest (by omega), ok_bind, restEntries_statement]
        rfl
      by_cases hcurly : c = '{'
      · subst hcurly
        obtain ⟨hinner, hbehind⟩ := length_block_le r
        have hfit := hsuffix.length_le
        rw [List.length_cons] at hfit
        have hlt : (blockBody (group '{' '}' ('{' :: r)).1).length < t.length := by omega
        rw [scanBody_block hsuffix, slice_startOf hr, typeNameBy_eq_ok, ok_bind,
          hafter ((suffix_group '{' '}' _).trans hsuffix) (by omega), restEntries_block, chunkEntries]
        cases typeName? h with
        | none =>
          simp only [headerEntries_eq_ok]
          rfl
        | some name =>
          simp only [bodyBetween_group hsuffix, ok_bind, if_pos hlt, hbody _ hlt]
          rfl
      · rw [scanBody_plain hsuffix hquote hround hsemi hcurly]
        refine hpart (u := [c]) rfl (by omega) ?_
        rw [List.singleton_append, headerFrom, if_neg hquote, if_neg hround,
          if_neg (by simp [hsemi, hcurly])]
        rfl

theorem scanBody_eq_ok (owner : Option Text) (t : Text) :
    scanBody t owner 0 0 = .ok (entries owner t) := by
  induction hlen : t.length using Nat.strongRecOn generalizing owner t with
  | ind n ih =>
    have hbody (body : Text) (hlt : body.length < t.length) (owner : Option Text) :=
      ih body.length (hlen ▸ hlt) owner body rfl
    have hscan := scanBody_startOf hbody owner (h := []) (List.suffix_refl t)
    rwa [List.nil_append, startOf_self, restEntries_start] at hscan

/-- The types and members of a source text. -/
def fragments (source : Text) : Except Fault (List Text) := do
  return distinct ((← scanBody (CommentStyle.slashes.strip source) none 0 0).map Entry.fragment)

theorem fragments_eq_ok (source : Text) : fragments source = .ok (Synopsis.Java.fragments source) := by
  rw [fragments, scanBody_eq_ok]
  rfl

/-! ## Parameters -/

/-- What a text is split into at its last gap. -/
def parts (t : Text) : List Text :=
  match lastWord? t with
  | none => []
  | some (none, word) => [word]
  | some (some head, word) => [head, word]

/-- One parameter of a list. -/
def parameter (t : Text) : Except Fault Parameter := do
  let parts := parts (trim (replaceAll finalAt? [] (stripAnnotations t)))
  if parts.length < 2 then
    let name ← if parts.isEmpty then pure [] else look parts 0
    return { name, type := some "Object".toList }
  else
    let type ← look parts 0
    let (n, rest) := indexBrackets (← look parts 1).reverse
    let type := collapse (type ++ (List.replicate n "[]".toList).flatten)
    return { name := rest.reverse, type := some type }

/-- The parameters of a parameter list. -/
def parameters (t : Text) : Except Fault (List Parameter) := do
  (← splitTop allPairs t).mapM parameter

theorem parameter_eq_ok (t : Text) : parameter t = .ok (Synopsis.Java.parameter t) := by
  unfold parameter Synopsis.Java.parameter parts
  cases lastWord? (trim (replaceAll finalAt? [] (stripAnnotations t))) with
  | none => rfl
  | some word =>
    obtain ⟨_ | type, name⟩ := word
    · rfl
    · rfl

theorem parameters_eq_ok (t : Text) : parameters t = .ok (Synopsis.Java.parameters t) := by
  rw [parameters, splitTop_eq_ok ofText?_allPairs Brackets.usual_all, ok_bind,
    mapM_eq_ok fun p _ => parameter_eq_ok p]
  rfl

/-! ## Declarations -/

/-- The part before the last gap. -/
def headPart (parts : List Text) : Except Fault (Option Text) := do
  if parts.length = 2 then return some (← look parts 0) else return none

/-- The signature of a written type or member. -/
def signature (fragment : Text) : Except Fault Signature := do
  let fragment := trim fragment
  if let some name := after? "class ".toList fragment then
    let name := trim name
    if isDollarName name then return { name } else throw (.rejected .badTypeName)
  let (t, className) := splitOwner fragment
  let some paren := findAt '(' t 0 | throw (.rejected .missingParameters)
  let some (params, _) ← groupAt t paren | throw (.rejected .unterminatedParameters)
  let parts := parts (trim (t.take paren))
  if parts.isEmpty then throw (.rejected .missingName)
  let name ← lookLast parts
  let returnType ← headPart parts
  if !isDollarName name then throw (.rejected .badMethodName)
  return { name, returnType, className, parameters := ← parameters params }

theorem look_parts {t name : Text} {head : Option Text} (h : lastWord? t = some (head, name)) :
    (parts t).isEmpty = false ∧ lookLast (parts t) = .ok name ∧ headPart (parts t) = .ok head := by
  unfold parts
  rw [h]
  cases head <;> exact ⟨rfl, rfl, rfl⟩

theorem signature_eq (fragment : Text) :
    signature fragment = (Synopsis.Java.signature fragment).mapError .rejected := by
  simp only [signature, Synopsis.Java.signature]
  generalize trim fragment = f
  cases after? "class ".toList f with
  | some name =>
    simp only
    split <;> rfl
  | none =>
    simp only
    obtain ⟨t, className⟩ := splitOwner f
    simp only [findAt_zero]
    cases hcut : cutAt? '(' t with
    | none => rfl
    | some cut =>
      obtain ⟨head, rest⟩ := cut
      have htake : t.take head.length = head := by rw [eq_append_of_cutAt? hcut, List.take_left]
      simp only [Option.map_some, groupAt_of_cutAt? hcut, htake, ok_bind]
      cases group? (t.drop head.length) with
      | none => rfl
      | some g =>
        cases hword : lastWord? (trim head) with
        | none =>
          simp only [Option.map_some, parts, hword]
          rfl
        | some word =>
          obtain ⟨returnType, name⟩ := word
          obtain ⟨hparts, hname, hreturn⟩ := look_parts hword
          simp only [Option.map_some, hparts, hname, hreturn, ok_bind, parameters_eq_ok]
          cases isDollarName name <;> rfl

end Synopsis.Offset.Java
