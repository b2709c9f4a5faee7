import Synopsis.Nesting.Depth
import Synopsis.Proofs.Nesting.Separator
import Synopsis.Proofs.Nesting.Span
import Synopsis.Proofs.Offset.Lookup

/-!
# Nesting by offset

Balanced spans, depth tables, lists and first occurrences outside brackets, all read by offsets. A
span looks up every character up to its close, a depth table is filled entry by entry, and a list is
split with one counter for each kind of bracket, looked up by the opener that a closer answers. Spans
and tables never fail. Splitting fails exactly where `Brackets.piecesOf` does (`splitTop_eq`): a list of
brackets may lack a closer, or have one whose opener does not count. The lists that languages use are
none of these, and with them the results are `Brackets.pieces` and `Brackets.breakTop?`.
-/

namespace Synopsis.Offset

open Text

/-! ## Spans -/

/-- The offset just past the close that ends `depth` open spans, or the end of the text. -/
def spanEnd (opener closer : Char) (t : Text) : (offsets : List Nat) → (depth : Nat) → Except Fault Nat
  | [], _ => .ok t.length
  | i :: is, d => do
    let c ← look t i
    if c = opener then spanEnd opener closer t is (d + 1)
    else if c = closer then
      if d = 1 then return i + 1 else spanEnd opener closer t is (d - 1)
    else spanEnd opener closer t is d

/-- The balanced span at an offset and the offset just past it. -/
def spanAt (opener closer : Char) (t : Text) (start : Nat) : Except Fault (Text × Nat) := do
  if t.length ≤ start then return ([], start)
  else if (← look t start) ≠ opener then return ([], start)
  else
    let stop ← spanEnd opener closer t (List.range' start (t.length - start)) 0
    return (slice t start stop, stop)

theorem slice_append (a s r : Text) : slice (a ++ (s ++ r)) a.length (a.length + s.length) = s := by
  rw [slice, List.take_length_add_append, List.take_left, List.drop_left]

theorem spanEnd_append (opener closer : Char) (a r : Text) (d : Nat) :
    spanEnd opener closer (a ++ r) (List.range' a.length r.length) d =
      .ok (a.length + (spanFrom opener closer d r).1.length) := by
  induction r generalizing a d with
  | nil => simp [spanEnd, spanFrom]
  | cons c r ih =>
    have hnext (d : Nat) := ih (a ++ [c]) d
    simp only [List.append_assoc, List.singleton_append, List.length_append, List.length_singleton]
      at hnext
    rw [List.length_cons, List.range'_succ, spanEnd, look_append, ok_bind, spanFrom]
    simp only [hnext]
    split
    · simp [keep, Nat.add_comm 1, Nat.add_assoc]
    · split
      · split
        · simp
        · simp [keep, Nat.add_comm 1, Nat.add_assoc]
      · simp [keep, Nat.add_comm 1, Nat.add_assoc]

theorem spanAt_append (opener closer : Char) (a r : Text) :
    spanAt opener closer (a ++ r) a.length =
      .ok ((balanced opener closer r).1, a.length + (balanced opener closer r).1.length) := by
  cases r with
  | nil => simp [spanAt, balanced]
  | cons c r =>
    rw [spanAt, if_neg (by simp), look_append, ok_bind, balanced]
    by_cases hc : c = opener
    · have hslice := slice_append a (spanFrom opener closer 0 (c :: r)).1
        (spanFrom opener closer 0 (c :: r)).2
      rw [spanFrom_append] at hslice
      rw [if_neg (by simp [hc]), if_pos (by simp [hc]), List.length_append, Nat.add_sub_cancel_left,
        spanEnd_append, ok_bind, hslice]
      rfl
    · rw [if_pos hc, if_neg (by simpa using hc)]
      simp

/-- A span read at the start of an end of a text is the span at the front of that end. -/
theorem spanAt_startOf (opener closer : Char) {t r : Text} (h : r <:+ t) :
    spanAt opener closer t (startOf t r) =
      .ok ((balanced opener closer r).1, startOf t (balanced opener closer r).2) := by
  obtain ⟨a, rfl⟩ := h
  have hlen := congrArg List.length (balanced_append opener closer r)
  rw [startOf_append, spanAt_append, startOf]
  simp only [List.length_append] at hlen ⊢
  congr 2
  omega

theorem isEmpty_balanced (opener closer : Char) (t : Text) :
    (balanced opener closer (opener :: t)).1.isEmpty = false := by
  rw [balanced, if_pos List.head?_cons, spanFrom, if_pos rfl]
  rfl

theorem spanAt_zero (opener closer : Char) (t : Text) : spanAt opener closer t 0 =
    .ok ((balanced opener closer t).1, startOf t (balanced opener closer t).2) := by
  have hstart := spanAt_startOf opener closer (List.suffix_refl t)
  rwa [startOf, Nat.sub_self] at hstart

/-- A parenthesised span at an offset that ends in a parenthesis, without its delimiters, and the
    offset just past it. -/
def groupAt (t : Text) (start : Nat) : Except Fault (Option (Text × Nat)) := do
  let (span, stop) ← spanAt '(' ')' t start
  if span.getLast? = some ')' then return some (unwrap span, stop) else return none

theorem group?_eq (t : Text) :
    group? t = if (parens t).1.getLast? = some ')' then some (unwrap (parens t).1, (parens t).2)
      else none := rfl

theorem groupAt_startOf {t r : Text} (h : r <:+ t) :
    groupAt t (startOf t r) = .ok ((group? r).map fun g => (g.1, startOf t g.2)) := by
  rw [groupAt, spanAt_startOf '(' ')' h, ok_bind, group?_eq, parens]
  split
  · next span stop heq =>
    cases heq
    split <;> rfl

theorem groupAt_zero (t : Text) :
    groupAt t 0 = .ok ((group? t).map fun g => (g.1, startOf t g.2)) := by
  have hstart := groupAt_startOf (List.suffix_refl t)
  rwa [startOf, Nat.sub_self] at hstart

theorem suffix_of_group? {t inside rest : Text} (h : group? t = some (inside, rest)) : rest <:+ t := by
  rw [group?_eq] at h
  split at h
  · cases h
    exact suffix_balanced '(' ')' t
  · cases h

/-! ## Depth tables -/

/-- A table of depths, filled from an offset on. -/
def fillFrom (report next : Nat → Char → Nat) :
    (i : Nat) → Text → (depth : Nat) → (table : List Nat) → Except Fault (List Nat)
  | _, [], _, table => .ok table
  | i, c :: cs, d, table => do
    fillFrom report next (i + 1) cs (next d c) (← put table i (report d c))

/-- The depth that a character reports: an opening brace the one that it opens. -/
def braceReport (d : Nat) (c : Char) : Nat := if c = '{' then d + 1 else d

/-- The depth after a character. -/
def braceNext (d : Nat) (c : Char) : Nat := if c = '{' then d + 1 else if c = '}' then d - 1 else d

/-- The depth in round and square brackets after a character. -/
def groupNext (d : Nat) (c : Char) : Nat :=
  if c = '(' || c = '[' then d + 1 else if c = ')' || c = ']' then d - 1 else d

/-- The brace depths of a text. -/
def braceTable (t : Text) : Except Fault (List Nat) :=
  fillFrom braceReport braceNext 0 t 0 (List.replicate t.length 0)

/-- The group depths of a text. -/
def groupTable (t : Text) : Except Fault (List Nat) :=
  fillFrom (fun d _ => d) groupNext 0 t 0 (List.replicate t.length 0)

/-- The depths that a filling enters. -/
def depthsFrom (report next : Nat → Char → Nat) : (depth : Nat) → Text → List Nat
  | _, [] => []
  | d, c :: cs => report d c :: depthsFrom report next (next d c) cs

theorem fillFrom_eq_ok (report next : Nat → Char → Nat) (done : List Nat) (t : Text) (d : Nat) :
    fillFrom report next done.length t d (done ++ List.replicate t.length 0) =
      .ok (done ++ depthsFrom report next d t) := by
  induction t generalizing done d with
  | nil => simp [fillFrom, depthsFrom]
  | cons c t ih =>
    have hnext := ih (done ++ [report d c]) (next d c)
    simp only [List.length_append, List.length_singleton, List.append_assoc, List.singleton_append]
      at hnext
    rw [List.length_cons, List.replicate_succ, fillFrom, put_append, ok_bind, hnext, depthsFrom]

theorem braceTable_eq_ok (t : Text) : braceTable t = .ok (braceDepths t) := by
  have hdepths (d : Nat) : depthsFrom braceReport braceNext d t = braceDepthsFrom d t := by
    fun_induction braceDepthsFrom d t <;> simp_all [depthsFrom, braceReport, braceNext]
  rw [braceDepths, ← hdepths]
  exact fillFrom_eq_ok _ _ [] t 0

theorem groupTable_eq_ok (t : Text) : groupTable t = .ok (groupDepths t) := by
  have hdepths (d : Nat) : depthsFrom (fun d _ => d) groupNext d t = groupDepthsFrom d t := by
    induction t generalizing d with
    | nil => rfl
    | cons c t ih => rw [depthsFrom, groupDepthsFrom, ih]; rfl
  rw [groupDepths, ← hdepths]
  exact fillFrom_eq_ok _ _ [] t 0

theorem length_groupDepths (t : Text) : (groupDepths t).length = t.length := by
  have hlength (d : Nat) : (groupDepthsFrom d t).length = t.length := by
    induction t generalizing d with
    | nil => rfl
    | cons c t ih => rw [groupDepthsFrom, List.length_cons, ih, List.length_cons]
  exact hlength 0

theorem length_braceDepths (t : Text) : (braceDepths t).length = t.length :=
  length_braceDepthsFrom 0 t

/-- Whether a table has zero at an offset, looked up. -/
def topAt (depths : List Nat) (i : Nat) : Except Fault Bool := do return (← look depths i) == 0

theorem topAt_eq_ok {depths : List Nat} {i : Nat} (h : i < depths.length) :
    topAt depths i = .ok (topLevelAt depths i) := by
  rw [topAt, look_of_lt h, topLevelAt, List.getElem?_eq_getElem h]
  rfl

/-- What the hits give at whose offset a table has zero. -/
def filterTop {α β : Type} (depths : List Nat) (offset : Site α → Nat)
    (give : Site α → Except Fault (Option β)) (hits : List (Site α)) : Except Fault (List β) :=
  hits.filterMapM fun s => do if ← topAt depths (offset s) then give s else return none

theorem filterTop_eq_ok {α β : Type} {depths : List Nat} {offset : Site α → Nat}
    {giveBy : Site α → Except Fault (Option β)} {give : Site α → Option β} {hits : List (Site α)}
    (hoffset : ∀ s ∈ hits, offset s < depths.length) (hgive : ∀ s ∈ hits, giveBy s = .ok (give s)) :
    filterTop depths offset giveBy hits =
      .ok ((hits.filter fun s => topLevelAt depths (offset s)).filterMap give) := by
  rw [List.filterMap_filter]
  refine filterMapM_eq_ok fun s hs => ?_
  rw [topAt_eq_ok (hoffset s hs), ok_bind]
  cases topLevelAt depths (offset s) with
  | false => rfl
  | true => exact hgive s hs

/-- Every hit in a text starts at an offset that its brace depths have. -/
theorem start_lt_braceDepths {α : Type} {read : Place → Option (α × Text)} {t : Text} {s : Site α}
    (h : s ∈ sites read t) : s.start < (braceDepths t).length := by
  rw [length_braceDepths]
  exact start_lt_of_mem_sites h

/-! ## Brackets -/

/-- Brackets with the pairs at the given offsets entered. -/
def enterPairs (pairs : Text) : (offsets : List Nat) → Brackets → Except Fault Brackets
  | [], b => .ok b
  | i :: is, b => do enterPairs pairs is (b.withPair (← look pairs i) (← look pairs (i + 1)))

/-- Brackets listed opener, closer, opener, closer. -/
def bracketsOf (pairs : Text) : Except Fault Brackets :=
  enterPairs pairs (List.range' 0 ((pairs.length + 1) / 2) 2) ⟨[]⟩

/-- The opener of every closer. -/
def openerTable : List (Char × Char) := [(')', '('), (']', '['), ('}', '{'), ('>', '<')]

/-- Whether the character at an offset is the head of an arrow. -/
def arrowAt (t : Text) (i : Nat) : Except Fault Bool := do
  if (← look t i) ≠ '>' then return false
  else if i = 0 then return false
  else
    let prev ← lookBefore t i
    return prev == '=' || prev == '-'

/-- The fault of a look-up that has no answer: a bracket without its closer is looked up just past the
    list of brackets. -/
def faultOf (size : Nat) : NestingFault → Fault
  | .offsetOutsideText => .outside size
  | .unpairedBracket => .outside size
  | .unknownBracket c => .unknown c

theorem enterPairs_append (a r : Text) (b : Brackets) :
    enterPairs (a ++ r) (List.range' a.length ((r.length + 1) / 2) 2) b =
      (Brackets.ofText? r b).mapError (faultOf (a ++ r).length) := by
  fun_induction Brackets.ofText? r b generalizing a with
  | case1 b => rfl
  | case2 o b =>
    have hpast : look (a ++ [o]) (a.length + 1) = .error (.outside (a.length + 1)) := by simp [look]
    simp only [List.length_singleton, Nat.reduceAdd, Nat.reduceDiv, List.range'_one, enterPairs,
      look_append, ok_bind, hpast, List.length_append]
    rfl
  | case3 o c r b ih =>
    have hnext := ih (a ++ [o, c])
    have hlook := look_append (a ++ [o]) r c
    have hhalf : ((o :: c :: r).length + 1) / 2 = (r.length + 1) / 2 + 1 := by
      simp only [List.length_cons]
      omega
    simp only [List.append_assoc, List.cons_append, List.nil_append, List.length_append, List.length_cons,
      List.length_nil, Nat.zero_add, Nat.reduceAdd] at hnext hlook
    rw [hhalf, List.range'_succ, enterPairs, look_append, ok_bind, hlook, ok_bind, hnext]
    simp

theorem bracketsOf_eq (pairs : Text) : bracketsOf pairs =
    (Brackets.ofText? pairs ⟨[]⟩).mapError (faultOf pairs.length) := enterPairs_append [] pairs ⟨[]⟩

theorem entry_openerTable (c : Char) : entry openerTable c =
    match Brackets.openerOf? c with
    | some o => .ok o
    | none => .error (.unknown c) := by
  fun_cases Brackets.openerOf? c with
  | case1 => rfl
  | case2 => rfl
  | case3 => rfl
  | case4 => rfl
  | case5 _ hround hsquare hcurly hangle =>
    have hlookup : openerTable.lookup c = none := by
      rw [List.lookup_eq_none_iff]
      simpa [openerTable] using ⟨hround, hsquare, hcurly, hangle⟩
    rw [entry, hlookup]

theorem arrowAt_append (a r : Text) (c : Char) :
    arrowAt (a ++ c :: r) a.length = .ok (Brackets.isArrowHead a.getLast? c) := by
  rw [arrowAt, look_append, ok_bind]
  by_cases hc : c = '>'
  · rw [if_neg (by simpa using hc)]
    cases hlast : a.getLast? with
    | none =>
      rw [List.getLast?_eq_none_iff.1 hlast, if_pos List.length_nil]
      simp [Brackets.isArrowHead]
    | some prev =>
      rw [if_neg (length_ne_zero_of_getLast? hlast), lookBefore_of_getLast? hlast]
      simp [Brackets.isArrowHead, hc]
  · rw [if_pos hc]
    simp [Brackets.isArrowHead, hc]

/-! ## Splitting -/

/-- A table with the value of a key that it has replaced. -/
def setKey (table : List (Char × Nat)) (key : Char) (n : Nat) : List (Char × Nat) :=
  table.map fun e => if e.1 = key then (key, n) else e

/-- The open brackets of each kind after the character at an offset. -/
def countAt (b : Brackets) (t : Text) (i : Nat) (c : Char) (depth : List (Char × Nat)) :
    Except Fault (List (Char × Nat)) := do
  if b.opens c then return setKey depth c ((← entry depth c) + 1)
  else if b.closes c then
    if ← arrowAt t i then return depth
    else
      let o ← entry openerTable c
      return setKey depth o ((← entry depth o) - 1)
  else return depth

/-- The stretches between top-level commas from an offset on, the first of them begun. -/
def splitFrom (b : Brackets) (t : Text) :
    (i : Nat) → Text → (depth : List (Char × Nat)) → (begun : Text) → Except Fault (List Text)
  | _, [], _, begun => .ok [begun]
  | i, c :: cs, depth, begun => do
    let depth ← countAt b t i c depth
    if depth.all (·.2 == 0) && c == ',' then
      return begun :: (← splitFrom b t (i + 1) cs depth [])
    else splitFrom b t (i + 1) cs depth (begun ++ [c])

/-- The pieces between top-level commas, with the brackets given as text. -/
def splitTop (pairs t : Text) : Except Fault (List Text) := do
  let b ← bracketsOf pairs
  let stretches ← splitFrom b t 0 t (b.pairs.map fun p => (p.1, 0)) []
  return (stretches.map trim).filter (!·.isEmpty)

/-- How many brackets of each kind are open. -/
def depthsOf (b : Brackets) (opened : List Char) : List (Char × Nat) :=
  b.pairs.map fun p => (p.1, opened.count p.1)

theorem modifyHead_nil_append (ts : List Text) : ts.modifyHead ([] ++ ·) = ts := by
  cases ts <;> rfl

section Split

variable {b : Brackets} {opened : List Char}

theorem entry_depthsOf {o : Char} (h : b.opens o = true) :
    entry (depthsOf b opened) o = .ok (opened.count o) := by
  have hlookup : (depthsOf b opened).lookup o = some (opened.count o) := by
    obtain ⟨pairs⟩ := b
    simp only [Brackets.opens, depthsOf] at h ⊢
    induction pairs with
    | nil => cases h
    | cons p pairs ih =>
      by_cases hp : p.1 = o
      · simp [hp]
      · have hkey : (o == p.1) = false := by simpa using Ne.symm hp
        rw [List.map_cons, List.lookup_cons, hkey]
        exact ih (by simpa [hp] using h)
  rw [entry, hlookup]

theorem entry_depthsOf_eq_error {o : Char} (h : ¬ b.opens o = true) :
    entry (depthsOf b opened) o = .error (.unknown o) := by
  have hlookup : (depthsOf b opened).lookup o = none := by
    rw [List.lookup_eq_none_iff]
    simp only [Brackets.opens, List.any_eq_true, not_exists, not_and] at h
    intro p hp
    obtain ⟨q, hq, rfl⟩ := List.mem_map.1 hp
    have hne : q.1 ≠ o := by simpa using h q hq
    simpa using hne.symm
  rw [entry, hlookup]

theorem setKey_depthsOf {opened' : List Char} {o : Char} {n : Nat} (hn : opened'.count o = n)
    (h : ∀ x, x ≠ o → opened'.count x = opened.count x) :
    setKey (depthsOf b opened) o n = depthsOf b opened' := by
  rw [setKey, depthsOf, depthsOf, List.map_map]
  refine List.map_congr_left fun p _ => ?_
  by_cases hp : p.1 = o
  · simp [hp, hn]
  · simp [hp, h p.1 hp]

theorem all_depthsOf (h : ∀ o ∈ opened, b.opens o = true) :
    (depthsOf b opened).all (·.2 == 0) = opened.isEmpty := by
  cases opened with
  | nil => simp [depthsOf]
  | cons o opened =>
    obtain ⟨p, hp, ho⟩ := List.any_eq_true.1 (h o List.mem_cons_self)
    obtain rfl : p.1 = o := by simpa using ho
    simp only [List.isEmpty_cons, depthsOf, List.all_map, List.all_eq_false]
    exact ⟨p, hp, by simp⟩

/-- A closer is looked up where it closes something. -/
theorem countAt_of_closesHere {a r : Text} {c : Char} (h : b.closesHere a.getLast? c = true) :
    countAt b (a ++ c :: r) a.length c (depthsOf b opened) = (do
      let o ← entry openerTable c
      return setKey (depthsOf b opened) o ((← entry (depthsOf b opened) o) - 1)) := by
  simp only [Brackets.closesHere, Bool.and_eq_true, Bool.not_eq_true'] at h
  obtain ⟨⟨hopens, hcloses⟩, harrow⟩ := h
  simp [countAt, hopens, hcloses, arrowAt_append, harrow]

/-- The counters follow the list of open brackets, if a closer answers an opener that counts. -/
theorem countAt_append {a r : Text} {c : Char} (hknown : b.closesHere a.getLast? c = true →
      ∃ o, Brackets.openerOf? c = some o ∧ b.opens o = true) :
    countAt b (a ++ c :: r) a.length c (depthsOf b opened) =
      .ok (depthsOf b (b.step opened a.getLast? c)) := by
  by_cases hhere : b.closesHere a.getLast? c = true
  · obtain ⟨o, ho, hopens⟩ := hknown hhere
    have hnot : ¬ b.opens c = true := by
      simp only [Brackets.closesHere, Bool.and_eq_true, Bool.not_eq_true'] at hhere
      simp [hhere.1.1]
    rw [countAt_of_closesHere hhere, entry_openerTable, Brackets.step, if_neg hnot, if_pos hhere, ho]
    simp only [ok_bind, entry_depthsOf hopens, pure_eq_ok]
    refine congrArg Except.ok (setKey_depthsOf List.count_erase_self fun x hx => ?_)
    exact List.count_erase_of_ne hx
  · rw [countAt, Brackets.step, if_neg hhere]
    by_cases hopen : b.opens c = true
    · rw [if_pos hopen, if_pos hopen, entry_depthsOf hopen, ok_bind, pure_eq_ok]
      refine congrArg Except.ok (setKey_depthsOf (by simp) fun x hx => ?_)
      exact List.count_cons_of_ne (Ne.symm hx)
    · rw [if_neg hopen, if_neg hopen]
      split
      · next hcloses =>
        have harrow : Brackets.isArrowHead a.getLast? c = true := by
          simpa [Brackets.closesHere, hopen, hcloses] using hhere
        rw [arrowAt_append, harrow]
        rfl
      · rfl

/-- A splitting ends without result where a closer is not known, and nowhere else. -/
theorem splitFrom_append (h : ∀ o ∈ opened, b.opens o = true) (n : Nat) (a r begun : Text) :
    splitFrom b (a ++ r) a.length r (depthsOf b opened) begun =
      match b.fault? a.getLast? r with
      | some fault => .error (faultOf n fault)
      | none => .ok ((b.stretchesFrom opened a.getLast? r).modifyHead (begun ++ ·)) := by
  induction r generalizing a opened begun with
  | nil => simp [splitFrom, Brackets.stretchesFrom_nil, Brackets.fault?]
  | cons c r ih =>
    have hstep := Brackets.opens_of_mem_step h a.getLast? c
    have hnext (begun : Text) := ih hstep (a ++ [c]) begun
    simp only [List.append_assoc, List.singleton_append, List.length_append, List.length_singleton,
      List.getLast?_concat] at hnext
    have hknown (hcount : b.closesHere a.getLast? c = true →
        ∃ o, Brackets.openerOf? c = some o ∧ b.opens o = true) :
        splitFrom b (a ++ c :: r) a.length (c :: r) (depthsOf b opened) begun =
          match b.fault? (some c) r with
          | some fault => .error (faultOf n fault)
          | none => .ok ((b.stretchesFrom opened a.getLast? (c :: r)).modifyHead (begun ++ ·)) := by
      rw [splitFrom, countAt_append hcount, ok_bind, Brackets.stretchesFrom_cons, all_depthsOf hstep]
      split
      · -- nothing is begun behind a comma
        rw [hnext]
        cases b.fault? (some c) r with
        | none =>
          simp only [modifyHead_nil_append]
          simp
        | some fault => rfl
      · rw [hnext, List.modifyHead_modifyHead]
        cases b.fault? (some c) r with
        | none => simp [Function.comp_def]
        | some fault => rfl
    rw [Brackets.fault?]
    by_cases hhere : b.closesHere a.getLast? c = true
    · rw [if_pos hhere]
      cases hopener : Brackets.openerOf? c with
      | none =>
        rw [splitFrom, countAt_of_closesHere hhere, entry_openerTable, hopener]
        rfl
      | some o =>
        by_cases hopens : b.opens o = true
        · simp only [if_pos hopens]
          exact hknown fun _ => ⟨o, hopener, hopens⟩
        · rw [splitFrom, countAt_of_closesHere hhere, entry_openerTable, hopener]
          simp only [ok_bind, entry_depthsOf_eq_error hopens, if_neg hopens]
          rfl
    · rw [if_neg hhere]
      exact hknown fun hcloses => absurd hcloses hhere

theorem piecesOf_eq {pairs : Text} (hpairs : Brackets.ofText? pairs ⟨[]⟩ = .ok b) (t : Text) :
    Brackets.piecesOf [','] pairs t =
      match b.fault? none t with
      | some fault => .error fault
      | none => .ok (b.pieces t) := by
  rw [Brackets.piecesOf, hpairs, Brackets.spells_singleton]
  rfl

/-- Splitting with counters gives the pieces of a list, and has no answer where these have none. -/
theorem splitTop_eq (pairs t : Text) : splitTop pairs t =
    (Brackets.piecesOf [','] pairs t).mapError (faultOf pairs.length) := by
  rw [splitTop, bracketsOf_eq]
  cases hpairs : Brackets.ofText? pairs ⟨[]⟩ with
  | error fault =>
    rw [Brackets.piecesOf, hpairs]
    rfl
  | ok b =>
    have hzero : (b.pairs.map fun p => (p.1, 0)) = depthsOf b [] := by simp [depthsOf]
    have hsplit := @splitFrom_append b [] (by simp) pairs.length [] t []
    simp only [modifyHead_nil_append] at hsplit
    have hstart : splitFrom b t 0 t (depthsOf b []) [] = _ := hsplit
    have hknown : (Except.ok b : Except NestingFault Brackets).mapError (faultOf pairs.length) =
      .ok b := rfl
    rw [piecesOf_eq hpairs, hknown, ok_bind, hzero, hstart, List.getLast?_nil, Brackets.pieces_eq]
    cases b.fault? none t with
    | some fault => rfl
    | none => rfl

example : splitTop "([]".toList "a".toList = .error (.outside 3) := rfl

example : splitTop "(]".toList "a]".toList = .error (.unknown '[') := rfl

theorem splitTop_eq_ok {pairs : Text} (hpairs : Brackets.ofText? pairs ⟨[]⟩ = .ok b) (hb : b.Usual)
    (t : Text) : splitTop pairs t = .ok (b.pieces t) := by
  have hpieces : Brackets.piecesOf [','] pairs t = .ok (b.pieces t) :=
    Brackets.piecesOf_eq_ok hpairs hb ',' t
  rw [splitTop_eq, hpieces]
  rfl

end Split

/-! ## First occurrences -/

/-- The offset of the first target outside brackets from an offset on. -/
def findFrom (b : Brackets) (target : Char) (t : Text) :
    (i : Nat) → Text → (depth : Nat) → Except Fault (Option Nat)
  | _, [], _ => .ok none
  | i, c :: cs, d => do
    if c == target && d == 0 then return some i
    else if b.opens c then findFrom b target t (i + 1) cs (d + 1)
    else if b.closes c then
      if ← arrowAt t i then findFrom b target t (i + 1) cs d
      else findFrom b target t (i + 1) cs (d - 1)
    else findFrom b target t (i + 1) cs d

/-- The offset of the first target outside brackets, with the brackets given as text. -/
def findTop (target : Char) (pairs t : Text) : Except Fault (Option Nat) := do
  findFrom (← bracketsOf pairs) target t 0 t 0

theorem findFrom_append {b : Brackets} (target : Char) (a r : Text) (d : Nat) :
    findFrom b target (a ++ r) a.length r d =
      .ok ((b.breakTopFrom (· == target) d a.getLast? r).map fun cut => a.length + cut.1.length) := by
  induction r generalizing a d with
  | nil => rfl
  | cons c r ih =>
    have hnext (d : Nat) := ih (a ++ [c]) d
    simp only [List.append_assoc, List.singleton_append, List.length_append, List.length_singleton,
      List.getLast?_concat] at hnext
    have hmap (cut : Option (Text × Text)) : (cut.map fun cut => a.length + 1 + cut.1.length) =
        (cut.map (keep c)).map fun cut => a.length + cut.1.length := by
      cases cut <;> simp [keep, Nat.add_assoc, Nat.add_comm 1]
    rw [findFrom, Brackets.breakTopFrom_cons]
    by_cases htarget : (c == target && d == 0) = true
    · rw [if_pos htarget, if_pos htarget]
      rfl
    · rw [if_neg htarget, if_neg htarget, ← hmap]
      simp only [hnext]
      by_cases hopen : b.opens c = true
      · rw [if_pos hopen, if_pos hopen]
      · rw [if_neg hopen, if_neg hopen, arrowAt_append, ok_bind, Brackets.closesHere]
        cases b.closes c <;> cases Brackets.isArrowHead a.getLast? c <;> simp [hopen]

/-- The search for one target finds the offset of the first one, and has no answer where that has
    none. -/
theorem findTop_eq (target : Char) (pairs t : Text) : findTop target pairs t =
    (Brackets.offsetOf? [target] pairs t).mapError (faultOf pairs.length) := by
  rw [findTop, bracketsOf_eq, Brackets.offsetOf?, Brackets.spells_singleton]
  cases Brackets.ofText? pairs ⟨[]⟩ with
  | error fault => rfl
  | ok b =>
    have hfind := findFrom_append (b := b) target [] t 0
    simp only [List.nil_append, List.length_nil, List.getLast?_nil, Nat.zero_add] at hfind
    exact hfind

theorem findTop_eq_ok {pairs : Text} {b : Brackets} (hpairs : Brackets.ofText? pairs ⟨[]⟩ = .ok b)
    (target : Char) (t : Text) :
    findTop target pairs t = .ok ((b.breakTop? target t).map (·.1.length)) := by
  rw [findTop_eq, Brackets.offsetOf?_eq_ok hpairs]
  rfl

/-- A text without what follows the first target outside brackets, trimmed; without a target as it
    stands. -/
def cutTopBy (target : Char) (pairs t : Text) : Except Fault Text := do
  match ← findTop target pairs t with
  | some i => return trim (t.take i)
  | none => return t

theorem cutTopBy_eq_ok {pairs : Text} {b : Brackets} (hpairs : Brackets.ofText? pairs ⟨[]⟩ = .ok b)
    (target : Char) (t : Text) : cutTopBy target pairs t = .ok (b.cutTop target t) := by
  rw [cutTopBy, findTop_eq_ok hpairs, ok_bind, Brackets.cutTop]
  cases hcut : b.breakTop? target t with
  | none => rfl
  | some cut =>
    obtain ⟨c, rfl, -⟩ := Brackets.eq_append_of_breakTopFrom hcut
    simp

/-- The text before and after the first target outside brackets, cut at its offset. -/
def breakTopBy (target : Char) (pairs t : Text) : Except Fault (Option (Text × Text)) := do
  match ← findTop target pairs t with
  | some i => return some (t.take i, t.drop (i + 1))
  | none => return none

theorem breakTopBy_eq_ok {pairs : Text} {b : Brackets} (hpairs : Brackets.ofText? pairs ⟨[]⟩ = .ok b)
    (target : Char) (t : Text) : breakTopBy target pairs t = .ok (b.breakTop? target t) := by
  rw [breakTopBy, findTop_eq_ok hpairs, ok_bind]
  cases hcut : b.breakTop? target t with
  | none => rfl
  | some cut =>
    obtain ⟨c, rfl, -⟩ := Brackets.eq_append_of_breakTopFrom hcut
    simp

/-! ## The lists of brackets that languages use -/

/-- Every kind of bracket. -/
def allPairs : Text := "()[]\x7b\x7d<>".toList

/-- Every kind but angle brackets. -/
def noAnglePairs : Text := "()[]\x7b\x7d".toList

/-- Every kind but braces. -/
def noCurlyPairs : Text := "()[]<>".toList

theorem ofText?_allPairs : Brackets.ofText? allPairs ⟨[]⟩ = .ok .all := rfl

theorem ofText?_noAnglePairs : Brackets.ofText? noAnglePairs ⟨[]⟩ = .ok .noAngle := rfl

theorem ofText?_noCurlyPairs : Brackets.ofText? noCurlyPairs ⟨[]⟩ = .ok .noCurly := rfl

end Synopsis.Offset
