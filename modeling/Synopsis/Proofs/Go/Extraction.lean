import Synopsis.Language
import Synopsis.Proofs.Comment
import Synopsis.Proofs.Go.Declaration

/-!
# Go: a written declaration is read as it was meant

The window of a declaration ends at the brace of its body (`windows_text`), and every part is read
back from it (`signature_window`). So a source that consists of one declaration has one signature, with
every part as it was declared (`extract_text`), unless its result ends in the word `interface` or
`struct`: then the brace of the body is taken for that of a type (`extract_structDeclaration`).
-/

namespace Synopsis.Go

open Text Brackets

/-! ## The window -/

theorem nested_groups {gs : List Group} (h : ∀ g ∈ gs, g.WellFormed) :
    Nested true (join ", " (gs.map Group.text)) := by
  rw [join_map_text]
  refine nested_join fun p hp => ?_
  obtain ⟨g, hg, hp⟩ := List.mem_flatMap.1 hp
  exact (nested_pieces (h g hg) hp).1.weaken

theorem Declaration.tail_eq (d : Declaration) :
    d.tail = '(' :: join ", " (d.groups.map Group.text) ++ [')'] ++
      (d.result.text?.map (' ' :: ·)).getD [] := by
  simp [Declaration.tail]

/-- A window runs through the parameters and the result. -/
theorem passes_tail {d : Declaration} (h : d.WellFormed) (before : Text) :
    Passes before d.tail 0 0 0 0 := by
  have hresult := h.result
  have hspace (before : Text) : Passes before [' '] 0 0 0 0 := passes_singleton rfl before
  rw [d.tail_eq]
  refine (passes_parens (nested_groups h.groups) before).append ?_
  cases hr : d.result with
  | nothing => exact passes_nil _ 0 0
  | single type =>
    rw [hr] at hresult
    refine (hspace _).append (passes_of_braced hresult.type.nested hresult.type.newline_not_mem ?_)
    intro a b heq hcount
    obtain ⟨w, hw, hends⟩ := hresult.braces a b heq hcount
    exact endsInBracedType_of_endsInWord hw hends rfl
  | several types =>
    rw [hr] at hresult
    refine (hspace _).append (passes_parens (nested_join fun t ht => ?_) _)
    exact (hresult.2 t ht).nested.weaken

theorem endsInWord_of_append_space {w : String} (hw : w ∈ bracedWords) {s t : Text}
    (h : EndsInWord w (s ++ ' ' :: t)) : EndsInWord w t := by
  have hsolid : ∀ w ∈ bracedWords, ' ' ∉ w.toList := by decide
  obtain ⟨a, heq, ha⟩ := h
  rw [← List.singleton_append, ← List.append_assoc] at heq
  rcases List.append_eq_append_iff.1 heq with ⟨b, rfl, ht⟩ | ⟨b, hb, ht⟩
  · refine ⟨b, ht, ?_⟩
    cases hl : b.getLast? with
    | none => rfl
    | some x => rwa [List.getLast?_append, hl] at ha
  · cases hl : b.getLast? with
    | none =>
      obtain rfl := List.getLast?_eq_none_iff.1 hl
      exact ⟨[], by simpa using ht.symm, rfl⟩
    | some x =>
      have hx := congrArg List.getLast? hb
      rw [List.getLast?_concat, List.getLast?_append, hl, Option.some_or, Option.some.injEq] at hx
      refine absurd ?_ (hsolid w hw)
      rw [ht, hx]
      exact List.mem_append_left t (List.mem_of_getLast? hl)

theorem not_endsInWord_parenthesis {w : String} (hw : w ∈ bracedWords) (s : Text) :
    ¬ EndsInWord w (s ++ [')']) := by
  have hwords : ∀ w ∈ bracedWords, w.toList.getLast?.any (· != ')') = true := by decide
  have hlast := hwords w hw
  rintro ⟨a, heq, -⟩
  have h := congrArg List.getLast? heq
  cases hl : w.toList.getLast? with
  | none => rw [hl] at hlast; cases hlast
  | some x =>
    rw [hl] at hlast
    rw [List.getLast?_concat, List.getLast?_append, hl, Option.some_or, Option.some.injEq] at h
    rw [← h] at hlast
    cases hlast

theorem not_endsInWord_tail {d : Declaration} (h : ¬ d.result.Unfinished) {w : String}
    (hw : w ∈ bracedWords) : ¬ EndsInWord w d.tail := by
  intro hends
  rw [d.tail_eq] at hends
  cases hr : d.result with
  | nothing =>
    rw [hr, show (Result.nothing.text?.map (' ' :: ·)).getD [] = [] from rfl, List.append_nil] at hends
    exact not_endsInWord_parenthesis hw _ hends
  | single type =>
    rw [hr] at h hends
    exact h ⟨w, hw, endsInWord_of_append_space hw hends⟩
  | several types =>
    rw [hr] at hends
    exact not_endsInWord_parenthesis hw _ (endsInWord_of_append_space hw hends)

theorem notBefore_isBlank_head {d : Declaration} (h : d.WellFormed) (t : Text) :
    notBefore isBlank (d.head ++ t) = true := by
  rw [Declaration.head]
  cases d.receiver with
  | none =>
    obtain ⟨c, n, hn⟩ := List.exists_cons_of_ne_nil (ne_nil_of_isName h.name)
    have hc := isBlank_of_isWord (List.all_eq_true.1 (all_isWord_of_isName h.name) c (by simp [hn]))
    simp [hn, notBefore, hc]
  | some r => rfl

/-- The window of a declaration: all before its body. -/
def Declaration.window (d : Declaration) : Text :=
  "func ".toList ++ (d.head ++ (d.tail ++ [' ', '{']))

theorem getLast?_tail {d : Declaration} (h : d.WellFormed) :
    d.tail.getLast?.any isBlank = false := by
  have hresult := h.result
  rw [d.tail_eq]
  cases hr : d.result with
  | nothing =>
    rw [show (Result.nothing.text?.map (' ' :: ·)).getD [] = [] from rfl, List.append_nil,
      List.getLast?_concat]
    decide
  | single type =>
    rw [hr] at hresult
    have hlast := (trim_eq_self_iff.1 hresult.type.trimmed).2
    rw [getLast?_of_suffix (List.suffix_append _ _) hresult.type.ne_nil] at hlast
    rw [Result.text?, Option.map_some, Option.getD_some, List.append_cons]
    exact hlast
  | several types =>
    rw [Result.text?, Option.map_some, Option.getD_some, List.getLast?_append, List.getLast?_cons,
      List.getLast?_concat]
    rfl

theorem windowFrom_text {d : Declaration} (h : d.WellFormed) (hfinished : ¬ d.result.Unfinished)
    (t : Text) : windowFrom 0 "cnuf".toList 0 0 false (' ' :: (d.head ++ (d.tail ++ ' ' :: '{' :: t))) =
      (' ' :: (d.head ++ (d.tail ++ [' ', '{'])), t) := by
  obtain ⟨hmatched, hchars⟩ := h.head
  have hspace (before : Text) : Passes before [' '] 0 0 0 0 := passes_singleton rfl before
  have hhead (before : Text) : Passes before d.head 0 0 0 0 := by
    refine passes_of_depthAfter (fun c hc => ?_) hmatched.1 hmatched.2 before
    simpa [isHeadChar] using List.all_eq_true.1 hchars c hc
  have hpass := (hspace "cnuf".toList).append ((hhead _).append ((passes_tail h _).append (hspace _)))
  have hend : endsInBracedType (([' '] ++ (d.head ++ (d.tail ++ [' ']))).reverse ++ "cnuf".toList) =
      false := by
    cases he : endsInBracedType (([' '] ++ (d.head ++ (d.tail ++ [' ']))).reverse ++ "cnuf".toList) with
    | false => rfl
    | true =>
      have hrev : ([' '] ++ (d.head ++ (d.tail ++ [' ']))).reverse ++ "cnuf".toList =
          ' ' :: (d.tail.reverse ++ (d.head.reverse ++ (' ' :: "cnuf".toList))) := by
        simp
      rw [hrev] at he
      obtain ⟨w, hw, hends⟩ := exists_endsInWord (getLast?_tail h) List.mem_cons_self he
      exact absurd hends (not_endsInWord_tail hfinished hw)
  have hbody := windowFrom_body (t := t) hpass hend
  simpa using hbody

theorem window?_eq_none {p : Place} (h : p.rest.head? ≠ some 'f') : window? p = none := by
  rw [window?, after?_eq_none_of_head (c := 'f') rfl h]
  split <;> rfl

theorem windows_text {d : Declaration} (h : d.WellFormed) (hfinished : ¬ d.result.Unfinished) :
    windows d.text = [d.window] := by
  have hread : window? ⟨none, 0, d.text⟩ = some (d.window, ['\n', '}', '\n']) := by
    have hfunc : after? "func".toList d.text =
        some (' ' :: (d.head ++ (d.tail ++ ' ' :: '{' :: ['\n', '}', '\n']))) := after?_append "func".toList _
    rw [window?, if_neg (by simp [Place.isWordStart, notAfter]), hfunc]
    simp only [Option.bind_eq_bind, Option.bind_some, windowFrom_text h hfinished]
    rfl
  have hrest (prev : Option Char) (k : Nat) : sitesFrom window? 0 prev k ['\n', '}', '\n'] = [] := by
    rw [sitesFrom, window?_eq_none (by simp), sitesFrom, window?_eq_none (by simp), sitesFrom,
      window?_eq_none (by simp)]
    rfl
  have htext : d.text = 'f' :: (d.window.tail ++ ['\n', '}', '\n']) := by
    have happ : d.text = d.window ++ ['\n', '}', '\n'] := by
      have hwindow : d.window = "func ".toList ++ (d.head ++ (d.tail ++ [' ', '{'])) := rfl
      rw [hwindow, List.append_assoc, List.append_assoc, List.append_assoc]
      rfl
    exact happ
  have hlen : (d.window.tail ++ ['\n', '}', '\n']).length - ['\n', '}', '\n'].length =
      d.window.tail.length := by
    rw [List.length_append, Nat.add_sub_cancel]
  rw [htext] at hread
  rw [windows, sites, htext, sitesFrom, hread]
  simp only [hlen, sitesFrom_skip, hrest]
  rfl

theorem isCandidate_window {d : Declaration} (h : d.WellFormed) : isCandidate d.window = true := by
  have hkey : keyword? "func" d.window = some (d.head ++ (d.tail ++ [' ', '{'])) :=
    @keyword?_append "func" _ (notBefore_isBlank_head h _)
  have hhead (c : Char) (hc : c ∈ d.head) : (c ≠ '\n' && c ≠ '{') = true := by
    simpa [isHeadChar] using List.all_eq_true.1 h.head.2 c hc
  have hmem : '(' ∈ (d.head ++ (d.tail ++ [' ', '{'])).takeWhile fun c => c ≠ '\n' && c ≠ '{' := by
    rw [List.takeWhile_append_of_pos hhead, Declaration.tail]
    exact List.mem_append_right _ (by simp)
  rw [isCandidate, hkey]
  simpa using hmem

theorem trim_concat {t : Text} {c : Char} (ht : notBefore isBlank t = true) (hne : t ≠ [])
    (hc : isBlank c = false) : trim (t ++ [c]) = t ++ [c] := by
  rw [trim_eq_self_iff, List.getLast?_concat]
  obtain ⟨x, t, rfl⟩ := List.exists_cons_of_ne_nil hne
  exact ⟨by simpa [notBefore] using ht, hc⟩

theorem trim_window (d : Declaration) : trim d.window = d.window := by
  have h := trim_concat (t := "func ".toList ++ (d.head ++ (d.tail ++ [' ']))) (c := '{') rfl
    (List.cons_ne_nil _ _) (by decide)
  rwa [List.append_assoc, List.append_assoc, List.append_assoc] at h

/-! ## The signature -/

theorem leading_group {o c : Char} (hne : o ≠ c) {t : Text} (h : depthAfter o c 1 t = some 1)
    (u : Text) : leading o c (o :: t ++ c :: u) = (some (trim t), trim u) := by
  rw [leading, if_pos (by simp), balanced_of_depthAfter h hne]
  simp only [unwrap_cons_concat]

theorem trim_text {r : Receiver} (h : r.WellFormed) : trim r.text = r.text := by
  have htype : trim (r.type ++ bracketed r.arguments) = r.type ++ bracketed r.arguments := by
    cases r.arguments with
    | none =>
      rw [bracketed, List.append_nil]
      exact trim_of_isName h.type
    | some a =>
      exact trim_around (ne_nil_of_isName h.type) (trim_of_isName h.type) (List.cons_ne_nil ']' [])
        (by decide) ('[' :: a)
  have hne : r.type ++ bracketed r.arguments ≠ [] :=
    List.append_ne_nil_of_left_ne_nil (ne_nil_of_isName h.type) _
  have htext := trim_around (ne_nil_of_isName h.name) (trim_of_isName h.name) hne htype
    (' ' :: (List.replicate r.stars '*' ++ (r.package.map (· ++ ['.'])).getD []))
  rwa [List.cons_append, List.append_assoc] at htext

/-- The receiver is read from the front of a declaration. -/
theorem leading_head {d : Declaration} (h : d.WellFormed) (t : Text) :
    leading '(' ')' (d.head ++ (t ++ ['{'])) =
      (d.receiver.map Receiver.text, d.name ++ (bracketed d.generics ++ (t ++ ['{']))) := by
  obtain ⟨c, n, hn⟩ := List.exists_cons_of_ne_nil (ne_nil_of_isName h.name)
  have hword := List.all_eq_true.1 (all_isWord_of_isName h.name) c (by simp [hn])
  rw [Declaration.head]
  cases hr : d.receiver with
  | none =>
    have hc : c ≠ '(' := by
      rintro rfl
      cases hword
    rw [leading, if_neg (by simp [hn, hc])]
    simp
  | some r =>
    obtain ⟨hmatched, -⟩ := (h.receiver r hr).text
    have htrim : trim (' ' :: (d.name ++ (bracketed d.generics ++ (t ++ ['{'])))) =
        d.name ++ (bracketed d.generics ++ (t ++ ['{'])) := by
      have hpad := trim_cons_of_blank isBlank_space (d.name ++ (bracketed d.generics ++ t) ++ ['{'])
      have hconcat := trim_concat (t := d.name ++ (bracketed d.generics ++ t)) (c := '{')
        (by simp [notBefore, hn, isBlank_of_isWord hword]) (by simp [hn]) (by decide)
      rw [hconcat] at hpad
      simpa using hpad
    have hgroup := leading_group (by decide) hmatched.1
      (' ' :: (d.name ++ (bracketed d.generics ++ (t ++ ['{']))))
    rw [trim_text (h.receiver r hr), htrim] at hgroup
    simpa using hgroup

/-- The package and the type of a receiver, as they stand behind the stars. -/
def Receiver.path (r : Receiver) : Text := (r.package.map (· ++ ['.'])).getD [] ++ r.type

theorem Receiver.text_eq (r : Receiver) : r.text =
    r.name ++ ' ' :: (List.replicate r.stars '*' ++ r.path) ++ bracketed r.arguments := by
  simp [Receiver.text, Receiver.path]

/-- Whether a character may stand in the path of a receiver. -/
def isPathChar (c : Char) : Bool := isWord c || c == '.'

theorem all_isPathChar_path {r : Receiver} (h : r.WellFormed) : r.path.all isPathChar = true := by
  have hname {n : Text} (hn : isName n = true) : n.all isPathChar = true := by
    refine List.all_eq_true.2 fun c hc => ?_
    rw [isPathChar, List.all_eq_true.1 (all_isWord_of_isName hn) c hc, Bool.true_or]
  rw [Receiver.path, List.all_append, hname h.type, Bool.and_true]
  cases hp : r.package with
  | none => rfl
  | some p =>
    rw [Option.map_some, Option.getD_some, List.all_append, hname (h.package p hp)]
    decide

theorem path_ne_nil {r : Receiver} (h : r.WellFormed) : r.path ≠ [] :=
  List.append_ne_nil_of_right_ne_nil _ (ne_nil_of_isName h.type)

theorem square_not_mem {r : Receiver} (h : r.WellFormed) :
    '[' ∉ r.name ++ ' ' :: (List.replicate r.stars '*' ++ r.path) := by
  have hname : '[' ∉ r.name := not_mem_of_all (all_isWord_of_isName h.name) (by decide)
  have hpath : '[' ∉ r.path := not_mem_of_all (all_isPathChar_path h) (by decide)
  simp [hname, hpath]

theorem afterLast_path {r : Receiver} (h : r.WellFormed) : afterLast '.' r.path = r.type := by
  have hdot : '.' ∉ r.type.reverse := by
    rw [List.mem_reverse]
    exact not_mem_of_all (all_isWord_of_isName h.type) (by decide)
  have hbefore : before '.' r.path.reverse = r.type.reverse := by
    rw [Receiver.path, List.reverse_append]
    cases r.package with
    | none =>
      rw [Option.map_none, Option.getD_none, List.reverse_nil, List.append_nil, before_eq_self hdot]
    | some p =>
      rw [Option.map_some, Option.getD_some, List.reverse_append]
      exact before_append hdot p.reverse
  rw [afterLast, show r.path.reverse.takeWhile (· ≠ '.') = _ from hbefore, List.reverse_reverse]

/-- The bare type of a receiver: behind its stars and its package, before its arguments. -/
theorem receiverType_text {r : Receiver} (h : r.WellFormed) : receiverType r.text = some r.type := by
  have hbefore : before '[' r.text = r.name ++ ' ' :: (List.replicate r.stars '*' ++ r.path) := by
    rw [r.text_eq]
    cases r.arguments with
    | none => rw [bracketed, List.append_nil, before_eq_self (square_not_mem h)]
    | some a => exact before_append (square_not_mem h) (a ++ [']'])
  have hsolid (c : Char) (hc : c ∈ List.replicate r.stars '*' ++ r.path) : isBlank c = false := by
    cases hb : isBlank c with
    | false => rfl
    | true =>
      rcases List.mem_append.1 hc with hc | hc
      · rw [List.eq_of_mem_replicate hc] at hb
        cases hb
      · have hpath := List.all_eq_true.1 (all_isPathChar_path h) c hc
        rw [isPathChar, isWord_of_blank hb, Bool.false_or, beq_iff_eq] at hpath
        rw [hpath] at hb
        cases hb
  -- The type is the last of two words, without its stars and its package.
  have hwords : words (r.name ++ ' ' :: (List.replicate r.stars '*' ++ r.path)) =
      [r.name, List.replicate r.stars '*' ++ r.path] := by
    have hname (c : Char) (hc : c ∈ r.name) : isBlank c = false :=
      isBlank_of_isWord (List.all_eq_true.1 (all_isWord_of_isName h.name) c hc)
    rw [words_append_cons_of_blank isBlank_space, words_of_solid (ne_nil_of_isName h.name) hname,
      words_of_solid (List.append_ne_nil_of_right_ne_nil _ (path_ne_nil h)) hsolid]
    rfl
  have hdrop : (List.replicate r.stars '*' ++ r.path).dropWhile (· == '*') = r.path := by
    refine (takeWhile_append_of_all (by simp) ?_).2
    obtain ⟨c, p, hp⟩ := List.exists_cons_of_ne_nil (path_ne_nil h)
    have hstar : '*' ∉ r.path := not_mem_of_all (all_isPathChar_path h) (by decide)
    have hc : c ≠ '*' := by
      rintro rfl
      exact hstar (by rw [hp]; exact List.mem_cons_self)
    simp [hp, notBefore, hc]
  rw [receiverType, hbefore, hwords]
  simp only [List.getLast?_cons_cons, List.getLast?_singleton, Option.bind_eq_bind, Option.bind_some,
    hdrop, afterLast_path h]
  rw [nonempty?_of_ne_nil (ne_nil_of_isName h.type)]

theorem receiverGenerics_text {r : Receiver} (h : r.WellFormed) :
    receiverGenerics r.text = r.arguments := by
  have hdrop : r.text.dropWhile (· ≠ '[') = bracketed r.arguments := by
    rw [r.text_eq]
    refine (takeWhile_append_of_all ?_ ?_).2
    · refine List.all_eq_true.2 fun c hc => decide_eq_true ?_
      rintro rfl
      exact square_not_mem h hc
    · cases r.arguments <;> rfl
  rw [receiverGenerics, hdrop]
  cases ha : r.arguments with
  | none => rfl
  | some a =>
    have harg := h.arguments a ha
    have hbalanced : balanced '[' ']' ('[' :: a ++ [']']) = ('[' :: a ++ [']'], []) :=
      balanced_of_depthAfter harg.matched.2 (by decide) []
    rw [bracketed, hbalanced]
    simp only [unwrap_cons_concat, harg.trimmed]
    rw [nonempty?_of_ne_nil harg.ne_nil]

/-! ## Results -/

theorem results_of_trimmed {t : Text} (hne : t ≠ []) (htrim : trim t = t) :
    results (trim (' ' :: t ++ [' ', '{'])) =
      if t.head? = some '(' then (resultType (unwrap (parens t).1)).map fun r => '(' :: r ++ [')']
      else resultType t := by
  have hhead : notBefore isBlank (t ++ [' ']) = true := by
    obtain ⟨c, u, rfl⟩ := List.exists_cons_of_ne_nil hne
    simpa [notBefore] using (trim_eq_self_iff.1 htrim).1
  have hwindow : trim (' ' :: t ++ [' ', '{']) = t ++ [' '] ++ ['{'] := by
    have hpad := trim_cons_of_blank isBlank_space (t ++ [' '] ++ ['{'])
    rw [trim_concat hhead (by simp) (by decide)] at hpad
    simpa using hpad
  have hspace : trim (t ++ [' ']) = t := by
    rw [trim_concat_of_blank isBlank_space, htrim]
  rw [results, hwindow, List.getLast?_concat, if_pos rfl, List.dropLast_concat, hspace]

/-- The result is read as it was written. -/
theorem results_text {d : Declaration} (h : d.WellFormed) :
    results (trim ((d.result.text?.map (' ' :: ·)).getD [] ++ [' ', '{'])) = d.result.text? := by
  have hresult := h.result
  cases hr : d.result with
  | nothing => decide
  | single type =>
    rw [hr] at hresult
    have htype := hresult.type
    rw [Result.text?, Option.map_some, Option.getD_some, results_of_trimmed htype.ne_nil htype.trimmed,
      if_neg hresult.head, resultType, htype.collapsed, nonempty?_of_ne_nil htype.ne_nil]
  | several types =>
    rw [hr] at hresult
    obtain ⟨hne, htypes⟩ := hresult
    have htrim : trim ('(' :: join ", " types ++ [')']) = '(' :: join ", " types ++ [')'] :=
      trim_concat rfl (by simp) (by decide)
    have hclosed : depthAfter '(' ')' 1 (join ", " types) = some 1 :=
      (nested_join fun t ht => (htypes t ht).nested.weaken).depthAfter (by decide) (Nat.le_refl 1)
    have hparens : parens ('(' :: join ", " types ++ [')']) = ('(' :: join ", " types ++ [')'], []) :=
      balanced_of_depthAfter hclosed (by decide) []
    rw [Result.text?, Option.map_some, Option.getD_some, results_of_trimmed (by simp) htrim,
      if_pos (by simp), hparens, unwrap_cons_concat, resultType,
      collapse_join fun t ht => ⟨(htypes t ht).ne_nil, (htypes t ht).collapsed⟩,
      nonempty?_of_ne_nil (join_ne_nil ", " hne fun t ht => (htypes t ht).ne_nil)]
    rfl

/-! ## The signature -/

theorem leading_generics {g : Option Text} (h : ∀ a ∈ g, IsArguments a) (t : Text) :
    leading '[' ']' (bracketed g ++ ('(' :: t ++ ['{'])) = (g, '(' :: t ++ ['{']) := by
  have htrim : trim ('(' :: t ++ ['{']) = '(' :: t ++ ['{'] := trim_concat rfl (by simp) (by decide)
  cases g with
  | none => rfl
  | some a =>
    have harg := h a rfl
    have hgroup := leading_group (by decide) harg.matched.2 ('(' :: t ++ ['{'])
    rw [harg.trimmed, htrim] at hgroup
    simpa [bracketed] using hgroup

theorem present?_of_ne_nil {t : Option Text} (h : ∀ u ∈ t, u ≠ []) : present? t = t := by
  cases t with
  | none => rfl
  | some u => rw [present?, Option.bind_some, nonempty?_of_ne_nil (h u rfl)]

theorem text_ne_nil {r : Receiver} : r.text ≠ [] := by
  simp [Receiver.text]

theorem Declaration.window_eq (d : Declaration) : d.window = "func".toList ++
    ' ' :: (d.head ++ ('(' :: (join ", " (d.groups.map Group.text) ++
      ')' :: ((d.result.text?.map (' ' :: ·)).getD [] ++ [' '])) ++ ['{'])) := by
  have hwindow : d.window = "func".toList ++ ' ' :: (d.head ++ (d.tail ++ [' ', '{'])) := rfl
  rw [hwindow, Declaration.tail]
  simp only [List.append_assoc, List.cons_append, List.nil_append]

theorem bind_receiverType {d : Declaration} (h : d.WellFormed) :
    (d.receiver.map Receiver.text).bind receiverType = d.receiver.map Receiver.type := by
  cases hr : d.receiver with
  | none => rfl
  | some r => exact receiverType_text (h.receiver r hr)

theorem bind_receiverGenerics {d : Declaration} (h : d.WellFormed) :
    (d.receiver.map Receiver.text).bind receiverGenerics = d.receiver.bind Receiver.arguments := by
  cases hr : d.receiver with
  | none => rfl
  | some r => exact receiverGenerics_text (h.receiver r hr)

/-- Every part of a declaration is read back from its window. -/
theorem signature_window {d : Declaration} (h : d.WellFormed) :
    Go.signature d.window = .ok d.signature := by
  have hfunc := after?_append "func".toList (' ' :: (d.head ++ ('(' ::
    (join ", " (d.groups.map Group.text) ++ ')' :: ((d.result.text?.map (' ' :: ·)).getD [] ++ [' '])) ++
      ['{'])))
  rw [← d.window_eq] at hfunc
  have hstart (t : Text) : trim (' ' :: (d.head ++ ('(' :: t ++ ['{']))) = d.head ++ ('(' :: t ++ ['{']) := by
    have hpad := trim_cons_of_blank isBlank_space (d.head ++ '(' :: t ++ ['{'])
    rw [trim_concat (notBefore_isBlank_head h _) (by simp) (by decide)] at hpad
    simpa using hpad
  have hname (t : Text) : name? (d.name ++ (bracketed d.generics ++ ('(' :: t ++ ['{']))) =
      some (d.name, bracketed d.generics ++ ('(' :: t ++ ['{'])) := by
    refine name?_append h.name ?_
    cases d.generics <;> rfl
  have hrest (t : Text) : trim (bracketed d.generics ++ ('(' :: t ++ ['{'])) =
      bracketed d.generics ++ ('(' :: t ++ ['{']) := by
    rw [← List.append_assoc]
    refine trim_concat ?_ (by simp) (by decide)
    cases d.generics <;> rfl
  have hclosed : depthAfter '(' ')' 1 (join ", " (d.groups.map Group.text)) = some 1 :=
    (nested_groups h.groups).depthAfter (by decide) (Nat.le_refl 1)
  have hgroup (t : Text) : group? ('(' :: (join ", " (d.groups.map Group.text) ++ ')' :: t) ++ ['{']) =
      some (join ", " (d.groups.map Group.text), t ++ ['{']) := by
    have h := group?_of_grouped (.of_balanced hclosed (t ++ ['{']))
    simpa using h
  have hresult := results_text h
  rw [show [' ', '{'] = [' '] ++ ['{'] from rfl, ← List.append_assoc] at hresult
  have hreceiver : present? (d.receiver.map Receiver.text) = d.receiver.map Receiver.text := by
    refine present?_of_ne_nil fun u hu => ?_
    obtain ⟨r, -, rfl⟩ := Option.map_eq_some_iff.1 hu
    exact text_ne_nil
  have hown : present? d.generics = d.generics := present?_of_ne_nil fun u hu => (h.generics u hu).ne_nil
  rw [Go.signature, trim_window, hfunc]
  simp only [hstart, leading_head h, hname, hrest, leading_generics h.generics, hgroup, hreceiver, hown,
    hresult, parameters_join h.groups]
  rw [if_neg (by simp), bind_receiverType h, bind_receiverGenerics h, Declaration.signature]
  cases d.generics.or (d.receiver.bind Receiver.arguments) with
  | none => rw [bracketed, List.append_nil]; rfl
  | some g => rw [bracketed, ← List.append_assoc]; rfl

/-! ## One declaration -/

theorem fragments_declaration {d : Declaration} (h : d.WellFormed) (hfinished : ¬ d.result.Unfinished)
    (hblock : ¬ "/*".toList <:+: d.text) (hline : ¬ "//".toList <:+: d.text) :
    fragments d.text = [d.window] := by
  have hne : d.window.isEmpty = false := rfl
  rw [fragments, CommentStyle.strip_slashes_eq_self hblock hline, windows_text h hfinished, distinct,
    List.filter_cons, isCandidate_window h, if_pos rfl, List.filter_nil, List.map_singleton, trim_window,
    List.filter_cons, hne]
  rfl

/-- A source that consists of one declaration has one signature, with every part as it was declared,
    unless the brace of the body would be taken for that of a type. -/
theorem extract_text {d : Declaration} (h : d.WellFormed) (hfinished : ¬ d.result.Unfinished)
    (hblock : ¬ "/*".toList <:+: d.text) (hline : ¬ "//".toList <:+: d.text) :
    Language.go.extract d.text = [d.signature] := by
  have hblank : blank d.text = false := rfl
  have hfragments : Language.go.fragments d.text = [d.window] := fragments_declaration h hfinished hblock hline
  have hsignature : Language.go.signature d.window = .ok d.signature := signature_window h
  rw [Language.extract, extractWith, hblank, if_neg Bool.false_ne_true, hfragments, List.filterMap_cons,
    hsignature]
  rfl

theorem braces_of_take {t : Text} (h : ∀ k ∈ List.range t.length, (t.drop k).head? = some '{' →
      (t.take k).count '(' = (t.take k).count ')' → ∃ w ∈ bracedWords, EndsInWord w (t.take k))
    (a b : Text) (heq : t = a ++ '{' :: b) (hcount : a.count '(' = a.count ')') :
    ∃ w ∈ bracedWords, EndsInWord w a := by
  subst heq
  have hk := h a.length (by simp) (by simp)
  rw [List.take_left] at hk
  exact hk hcount

/-- A method with a receiver from a package, two groups of parameters and a braced result. -/
def methodDeclaration : Declaration where
  receiver := some ⟨"r".toList, 1, some "p".toList, "T".toList, some "K, V".toList⟩
  name := "Get".toList
  generics := none
  groups := [⟨["a".toList], "b".toList, "int".toList⟩, ⟨[], "f".toList, "func(x, y K) V".toList⟩]
  result := .single "chan struct{}".toList

theorem methodDeclaration_wellFormed : methodDeclaration.WellFormed := by
  have hword {commas : Bool} {t : Text} (ht : t.all (fun c => isWord c || c == ' ') = true) :
      Nested commas t := by
    refine .of_all (fun c hc => ?_) ht
    rcases Bool.or_eq_true_iff.1 hc with hc | hc
    · refine ⟨isBracket_of_isWord hc, ?_⟩
      rintro rfl
      cases hc
    · obtain rfl : c = ' ' := by simpa using hc
      decide
  have hint : IsType "int".toList := ⟨by decide, by decide, hword (by decide)⟩
  have hfunc : IsType "func(x, y K) V".toList := by
    have hinner : Nested true "x, y K".toList :=
      .plain (by decide) (by decide) (.plain (by decide) (fun _ => rfl) (hword (t := " y K".toList) (by decide)))
    exact ⟨by decide, by decide, (hword (t := "func".toList) (by decide)).append
      (.group (o := '(') (c := ')') (by decide) hinner (hword (t := " V".toList) (by decide)))⟩
  have hchan : IsType "chan struct{}".toList :=
    ⟨by decide, by decide, (hword (t := "chan struct".toList) (by decide)).append
      (.group (o := '{') (c := '}') (by decide) .nil .nil)⟩
  refine ⟨?_, by decide, by rintro g ⟨⟩, ?_, ⟨hchan, by decide, braces_of_take (by decide +kernel)⟩⟩
  · rintro r ⟨⟩
    refine ⟨by decide, by rintro p ⟨⟩; decide, by decide, ?_⟩
    rintro a ⟨⟩
    exact ⟨by decide, by decide, by simp, by decide, by decide⟩
  · intro g hg
    simp only [methodDeclaration, List.mem_cons, List.not_mem_nil, or_false] at hg
    rcases hg with rfl | rfl
    · exact ⟨by decide, hint⟩
    · exact ⟨by decide, hfunc⟩

theorem extract_text_methodDeclaration :
    methodDeclaration.text = ("func (r *p.T[K, V]) Get(a, b int, f func(x, y K) V) chan struct\x7b\x7d " ++
        "\x7b\n\x7d\n").toList ∧
      Language.go.extract methodDeclaration.text = [{
        name := "Get[K, V]".toList
        parameters := [⟨"a".toList, some "int".toList, false⟩, ⟨"b".toList, some "int".toList, false⟩,
          ⟨"f".toList, some "func(x, y K) V".toList, false⟩]
        returnType := some "chan struct\x7b\x7d".toList
        className := some "T".toList }] := by
  refine ⟨by decide +kernel, ?_⟩
  rw [extract_text methodDeclaration_wellFormed (by decide +kernel) (by decide +kernel)
    (by decide +kernel)]
  decide +kernel

/-- A function whose result is the bare word of a braced type. -/
def structDeclaration : Declaration where
  receiver := none
  name := "F".toList
  generics := none
  groups := []
  result := .single "struct".toList

/-- The brace of its body is taken for the brace of its result. -/
theorem extract_structDeclaration :
    structDeclaration.WellFormed ∧ ¬ "/*".toList <:+: structDeclaration.text ∧
      ¬ "//".toList <:+: structDeclaration.text ∧
      Language.go.extract structDeclaration.text ≠ [structDeclaration.signature] := by
  refine ⟨⟨by rintro r ⟨⟩, by decide, by rintro g ⟨⟩, by rintro g ⟨⟩, ?_⟩, by decide +kernel,
    by decide +kernel, by decide +kernel⟩
  have hnested : Nested false "struct".toList := nested_of_isName (by decide)
  exact ⟨⟨by decide, by decide, hnested⟩, by decide, braces_of_take (by decide +kernel)⟩

end Synopsis.Go
