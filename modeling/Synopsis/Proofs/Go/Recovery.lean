import Synopsis.Proofs.Go.Extraction
import Synopsis.Proofs.Language

/-!
# Go: what a broken declaration hides

A word `func` whose parameters never come opens a window that runs on to the next brace. Lines without
brackets in front of a declaration therefore have no window of their own, or one that takes in the
window of the declaration (`found_append`). All windows behind it are as they were, so the lines hide
at most the signature of that one declaration (`mem_extract_append`), and they do hide it
(`extract_brokenLine`).
-/

namespace Synopsis.Go

open Text

/-! ## Braces of types -/

/-- A word is looked for no further than a text that no end of the word runs into. -/
theorem any_after?_append {lead m : Text}
    (hm : ∀ v, v <:+ lead → ∀ y, (after? v (m ++ y)).any (notBefore isWord) = false) (x y : Text) :
    (after? lead (x ++ (m ++ y))).any (notBefore isWord) =
      (after? lead (x ++ m)).any (notBefore isWord) := by
  induction x generalizing lead with
  | nil =>
    have hend := hm lead (List.suffix_refl lead) []
    rw [List.append_nil] at hend
    rw [List.nil_append, List.nil_append, hm lead (List.suffix_refl lead) y, hend]
  | cons c x ih =>
    cases lead with
    | nil => rfl
    | cons a lead =>
      rw [List.cons_append, List.cons_append, after?, after?]
      split
      · exact ih fun v hv => hm v (hv.trans (List.suffix_cons a lead))
      · rfl

/-- No word of a braced type ends across the word `func`. -/
theorem after?_cnuf {w : String} (hw : w ∈ bracedWords) {v : Text} (hv : v <:+ w.toList.reverse)
    (y : Text) : (after? v ("cnuf".toList ++ y)).any (notBefore isWord) = false := by
  -- to end across it, a word would have to end in its first letter or go on with its second
  have hcn : ∀ w ∈ bracedWords,
      ¬ "cn".toList <:+: w.toList.reverse ∧ w.toList.reverse.getLast? ≠ some 'c' := by
    decide +kernel
  obtain ⟨hfree, hlast⟩ := hcn w hw
  show (after? v ('c' :: 'n' :: 'u' :: 'f' :: y)).any (notBefore isWord) = false
  match v with
  | [] => rfl
  | [a] =>
    rw [after?]
    split
    · next hac =>
      subst hac
      obtain ⟨u, hu⟩ := hv
      rw [← hu, List.getLast?_concat] at hlast
      exact absurd rfl hlast
    · rfl
  | a :: b :: v =>
    rw [after?, after?]
    split
    · next hac =>
      subst hac
      split
      · next hbn =>
        subst hbn
        exact absurd (List.IsInfix.trans (List.prefix_append "cn".toList v).isInfix hv.isInfix) hfree
      · rfl
    · rfl

/-- What stands before the word `func` does not decide whether a later brace belongs to a type. -/
theorem endsInBracedType_append (x y : Text) :
    endsInBracedType (x ++ ("cnuf".toList ++ y)) = endsInBracedType (x ++ "cnuf".toList) := by
  have hgap (z : Text) : (x ++ ("cnuf".toList ++ z)).takeWhile isBlank = x.takeWhile isBlank ∧
      (x ++ ("cnuf".toList ++ z)).dropWhile isBlank = x.dropWhile isBlank ++ ("cnuf".toList ++ z) := by
    induction x with
    | nil => exact ⟨rfl, rfl⟩
    | cons c x ih =>
      rw [List.cons_append, List.takeWhile_cons, List.takeWhile_cons, List.dropWhile_cons,
        List.dropWhile_cons]
      split
      · exact ⟨congrArg (c :: ·) ih.1, ih.2⟩
      · exact ⟨rfl, rfl⟩
  have hword {w : String} (hw : w ∈ bracedWords) :=
    any_after?_append (fun _ hv y => after?_cnuf hw hv y) (x.dropWhile isBlank) y
  have hend := hgap []
  rw [List.append_nil] at hend
  rw [endsInBracedType, endsInBracedType, (hgap y).1, (hgap y).2, hend.1, hend.2]
  simp only [List.any_cons, List.any_nil]
  rw [hword (w := "interface") (by decide), hword (w := "struct") (by decide)]

/-! ## Windows -/

/-- The rest of a window does not hang on what stands before the word `func`. -/
theorem windowFrom_append (n : Nat) (x y : Text) (p s : Nat) (closed : Bool) (t : Text) :
    windowFrom n (x ++ ("cnuf".toList ++ y)) p s closed t =
      windowFrom n (x ++ "cnuf".toList) p s closed t := by
  induction t generalizing n x p s closed with
  | nil => rw [windowFrom, windowFrom]
  | cons c t ih =>
    have hnext (n p s : Nat) (closed : Bool) := ih n (c :: x) p s closed
    simp only [List.cons_append] at hnext
    cases n with
    | succ n => rw [windowFrom, windowFrom, hnext]
    | zero => simp only [windowFrom, endsInBracedType_append, hnext]

/-- A window runs through text without brackets, its parameters still to come. -/
theorem windowFrom_plain {u : Text} (hu : ∀ c ∈ u, isBracket c = false) (before t : Text) :
    windowFrom 0 before 0 0 false (u ++ t) =
      (u ++ (windowFrom 0 (u.reverse ++ before) 0 0 false t).1,
        (windowFrom 0 (u.reverse ++ before) 0 0 false t).2) := by
  induction u generalizing before with
  | nil => rfl
  | cons c u ih =>
    have hc := hu c List.mem_cons_self
    have hround := Nested.ne_of_isBracket (o := '(') (c := ')') (by decide) hc
    have hsquare := Nested.ne_of_isBracket (o := '[') (c := ']') (by decide) hc
    have hcurly := Nested.ne_of_isBracket (o := '{') (c := '}') (by decide) hc
    have htail := ih (fun d hd => hu d (List.mem_cons_of_mem c hd)) (c :: before)
    rw [List.cons_append, windowFrom, if_neg (by simp), if_neg (by simp [hcurly.1])]
    simp only [hround, hsquare, decide_false, Bool.false_and, Bool.false_or, if_false]
    rw [htail, List.reverse_cons, List.append_assoc, List.singleton_append]
    rfl

theorem windowFrom_halves (n : Nat) (before : Text) (p s : Nat) (closed : Bool) (t : Text) :
    (windowFrom n before p s closed t).1 ++ (windowFrom n before p s closed t).2 = t := by
  fun_induction windowFrom n before p s closed t <;> simp_all [keep]

theorem window?_eq_some {p : Place} {w r : Text} :
    window? p = some (w, r) ↔ p.isWordStart = true ∧ ∃ t, p.rest = "func".toList ++ t ∧
      t.head?.any isBlank = true ∧ w = "func".toList ++ (windowFrom 0 "cnuf".toList 0 0 false t).1 ∧
      r = (windowFrom 0 "cnuf".toList 0 0 false t).2 := by
  unfold window?
  constructor
  · intro h
    split at h
    · cases h
    · next hstart =>
      obtain ⟨t, hafter, h⟩ := Option.bind_eq_some_iff.1 h
      split at h
      · cases h
      · next hblank =>
        cases h
        exact ⟨by simpa using hstart, t, after?_eq_some.1 hafter, by simpa using hblank, rfl, rfl⟩
  · rintro ⟨hstart, t, hrest, hblank, rfl, rfl⟩
    rw [hstart, hrest, after?_append, if_neg (by simp)]
    simp [hblank]

theorem eq_append_of_window? {p : Place} {w r : Text} (h : window? p = some (w, r)) :
    w ≠ [] ∧ p.rest = w ++ r := by
  obtain ⟨-, t, hrest, -, rfl, rfl⟩ := window?_eq_some.1 h
  refine ⟨by simp, ?_⟩
  rw [hrest, List.append_assoc, windowFrom_halves]

/-- A word `func` that starts in a line ends in it, before the line end. -/
theorem exists_after?_func {u t y : Text} (hlast : u.getLast? = some '\n')
    (h : u ++ t = "func".toList ++ y) : ∃ z, u = "func".toList ++ z ∧ z ≠ [] ∧ y = z ++ t := by
  have hfree : '\n' ∉ "func".toList := by decide
  have hafter := after?_append_of_getLast? hlast hfree t
  rw [after?_eq_some.2 h] at hafter
  obtain ⟨z, hz, hy⟩ := Option.map_eq_some_iff.1 hafter.symm
  refine ⟨z, after?_eq_some.1 hz, ?_, hy.symm⟩
  rintro rfl
  rw [after?_eq_some.1 hz] at hlast
  cases hlast

/-- A word `func` in lines without brackets opens a window that runs on through the first window behind
    them. -/
theorem window?_append {u t w r : Text} (hu : ∀ c ∈ u, isBracket c = false)
    (hlast : u.getLast? = some '\n') (ht : window? ⟨none, 0, t⟩ = some (w, r)) (prev : Option Char)
    (k : Nat) : window? ⟨prev, k, u ++ t⟩ = (window? ⟨prev, k, u⟩).map fun _ => (u ++ w, r) := by
  obtain ⟨-, x, hx, -, rfl, rfl⟩ := window?_eq_some.1 ht
  have hx : t = "func".toList ++ x := hx
  cases hread : window? ⟨prev, k, u⟩ with
  | none =>
    rw [Option.map_none, Option.eq_none_iff_forall_not_mem]
    rintro ⟨w', r'⟩ hlong
    obtain ⟨hstart, y, hy, hblank, -, -⟩ := window?_eq_some.1 hlong
    have hstart : (Place.mk prev k u).isWordStart = true := hstart
    obtain ⟨z, hz, hne, rfl⟩ := exists_after?_func hlast hy
    obtain ⟨c, z, rfl⟩ := List.exists_cons_of_ne_nil hne
    rw [window?_eq_some.2 ⟨hstart, c :: z, hz, hblank, rfl, rfl⟩] at hread
    cases hread
  | some found =>
    obtain ⟨hstart, z, hz, hblank, -, -⟩ := window?_eq_some.1 hread
    have hz : u = "func".toList ++ z := hz
    have hplain (c : Char) (hc : c ∈ z) := hu c (hz ▸ List.mem_append_right _ hc)
    have hfunc (c : Char) (hc : c ∈ "func".toList) := hu c (hz ▸ List.mem_append_left _ hc)
    -- the window goes through the lines and the next word `func`, and then on as it would from there
    have hwindow := windowFrom_plain hplain "cnuf".toList t
    have hnext := windowFrom_plain hfunc (z.reverse ++ "cnuf".toList) x
    have hback : windowFrom 0 ("cnuf".toList ++ (z.reverse ++ "cnuf".toList)) 0 0 false x =
        windowFrom 0 "cnuf".toList 0 0 false x := windowFrom_append 0 [] _ 0 0 false x
    rw [show "func".toList.reverse = "cnuf".toList from rfl, hback, ← hx] at hnext
    rw [hnext] at hwindow
    have hhead : (z ++ t).head?.any isBlank = true := by
      cases z with
      | nil => cases hblank
      | cons c z => exact hblank
    refine window?_eq_some.2 ⟨hstart, z ++ t, by rw [hz, List.append_assoc], hhead, ?_, ?_⟩
    · rw [hwindow, hz, List.append_assoc]
    · rw [hwindow]

/-- Lines without brackets in front of a window have no windows of their own, or their first one takes
    that window in. -/
theorem found_append {u t w r : Text} (hu : ∀ c ∈ u, isBracket c = false)
    (hlast : u.getLast? = some '\n') (ht : window? ⟨none, 0, t⟩ = some (w, r)) (prev : Option Char)
    (k : Nat) :
    (sitesFrom window? 0 prev k u = [] ∧
        (sitesFrom window? 0 prev k (u ++ t)).map (·.found) = windows t) ∨
      sitesFrom window? 0 prev k u ≠ [] ∧
        ∃ v, (sitesFrom window? 0 prev k (u ++ t)).map (·.found) = (v ++ w) :: (windows t).tail := by
  obtain ⟨hne, htext⟩ := eq_append_of_window? ht
  have htext : t = w ++ r := htext
  have hoffset (p : Option Char) (k k' : Nat) (t : Text) : window? ⟨p, k, t⟩ = window? ⟨p, k', t⟩ := rfl
  induction u generalizing prev k with
  | nil => cases hlast
  | cons c u ih =>
    have hread := window?_append hu hlast ht prev k
    cases hhead : window? ⟨prev, k, c :: u⟩ with
    | some found =>
      -- both searches go on behind the first window of the text
      right
      rw [hhead, Option.map_some, htext, ← List.append_assoc] at hread
      have hlong := sitesFrom_of_read (by simp) hread
      rw [htext] at ht
      have hown := sitesFrom_of_read hne ht
      refine ⟨by rw [sitesFrom, hhead]; exact List.cons_ne_nil _ _, c :: u, ?_⟩
      rw [windows, sites, htext, hown, ← List.append_assoc, hlong, List.map_cons, List.map_cons,
        List.tail_cons, ← getLast?_of_suffix (List.suffix_append _ _) hne]
      exact congrArg _ (map_found_sitesFrom hoffset (fun _ _ => rfl) _ _ _ _)
    | none =>
      rw [hhead, Option.map_none, List.cons_append] at hread
      rw [List.cons_append, sitesFrom, sitesFrom, hhead, hread]
      cases u with
      | nil =>
        left
        obtain rfl : c = '\n' := by simpa using hlast
        have hprev (k : Nat) (t : Text) : window? ⟨some '\n', k, t⟩ = window? ⟨none, k, t⟩ := rfl
        exact ⟨rfl, map_found_sitesFrom hoffset hprev 0 (k + 1) 0 t⟩
      | cons d u =>
        exact ih (fun x hx => hu x (List.mem_cons_of_mem c hx)) (by simpa using hlast) _ _

/-! ## Signatures -/

theorem mem_extract_iff {source : Text} {s : Signature} :
    s ∈ Language.go.extract source ↔ blank source = false ∧
      ∃ w ∈ windows (CommentStyle.slashes.strip source), isCandidate w = true ∧
        signature (trim w) = .ok s := by
  rw [Language.mem_extract]
  refine and_congr_right fun _ => ?_
  constructor
  · rintro ⟨f, hf, hs⟩
    obtain ⟨-, w, hw, rfl⟩ := mem_distinct.1 hf
    obtain ⟨hw, hcandidate⟩ := List.mem_filter.1 hw
    exact ⟨w, hw, hcandidate, hs⟩
  · rintro ⟨w, hw, hcandidate, hs⟩
    refine ⟨trim w, mem_distinct.2 ⟨?_, w, List.mem_filter.2 ⟨hw, hcandidate⟩, rfl⟩, hs⟩
    intro hnil
    rw [hnil] at hs
    cases hs

/-- The signatures of the windows behind the first one. -/
def laterSignatures (source : Text) : List Signature :=
  ((windows (CommentStyle.slashes.strip source)).tail.filter isCandidate).filterMap fun w =>
    (signature (trim w)).toOption

/-- Whole lines without brackets and comment markers. -/
structure IsPreamble (p : Text) : Prop where
  lineEnd : p.getLast? = some '\n'
  plain : ∀ c ∈ p, isBracket c = false
  block : ¬ "/*".toList <:+: p
  line : ¬ "//".toList <:+: p

/-- A declaration opens a window. -/
theorem exists_window? {d : Text} (hd : "func ".toList <+: d) :
    ∃ w r, window? ⟨none, 0, CommentStyle.slashes.strip d⟩ = some (w, r) := by
  obtain ⟨t, rfl⟩ := hd
  refine ⟨_, _, window?_eq_some.2 ⟨rfl, ' ' :: CommentStyle.slashes.strip t, ?_, rfl, rfl, rfl⟩⟩
  exact CommentStyle.strip_slashes_append_of_not_mem (by decide) t

/-- Lines in front of a declaration hide no signature if no word `func` in them opens a window; if one
    does, then at most the signature of that first declaration. -/
theorem mem_extract_append {p d : Text} (hp : IsPreamble p) (hd : "func ".toList <+: d) {s : Signature}
    (hs : s ∈ Language.go.extract d) (hlater : windows p = [] ∨ s ∈ laterSignatures d) :
    s ∈ Language.go.extract (p ++ d) := by
  obtain ⟨hblank, w, hw, hcandidate, hsignature⟩ := mem_extract_iff.1 hs
  have hstrip := CommentStyle.strip_slashes_append hp.block hp.line hp.lineEnd d
  obtain ⟨first, r, hfirst⟩ := exists_window? hd
  have hfound := found_append hp.plain hp.lineEnd hfirst none 0
  refine mem_extract_iff.2 ⟨by rw [blank_append, hblank, Bool.and_false], ?_⟩
  rw [hstrip, windows, sites]
  rcases hfound with ⟨-, hall⟩ | ⟨hsome, v, hall⟩
  · rw [hall]
    exact ⟨w, hw, hcandidate, hsignature⟩
  · rcases hlater with hnone | hlater
    · exact absurd (List.map_eq_nil_iff.1 hnone) hsome
    · obtain ⟨w', hw', hsignature'⟩ := List.mem_filterMap.1 hlater
      obtain ⟨hw', hcandidate'⟩ := List.mem_filter.1 hw'
      rw [hall]
      exact ⟨w', List.mem_cons_of_mem _ hw', hcandidate', toOption_eq_some.1 hsignature'⟩

/-- A declaration that breaks off after its name. -/
def brokenLine : Text := "func Broken\n".toList

theorem isPreamble_brokenLine : IsPreamble brokenLine := by
  have hplain : brokenLine.all (!isBracket ·) = true := by decide
  refine ⟨rfl, fun c hc => ?_, by decide +kernel, by decide +kernel⟩
  simpa using List.all_eq_true.1 hplain c hc

/-- A function without parameters and result. -/
def bareFunction (name : String) : Declaration where
  receiver := none
  name := name.toList
  generics := none
  groups := []
  result := .nothing

/-- Behind the broken line, the second of two functions is found. -/
theorem mem_extract_append_brokenLine :
    IsPreamble brokenLine ∧ (bareFunction "G").signature ∈
      Language.go.extract (brokenLine ++ ((bareFunction "F").text ++ (bareFunction "G").text)) := by
  have hlater : (bareFunction "G").signature ∈
      laterSignatures ((bareFunction "F").text ++ (bareFunction "G").text) := by
    decide +kernel
  exact ⟨isPreamble_brokenLine,
    mem_extract_append isPreamble_brokenLine (by decide) (by decide +kernel) (.inr hlater)⟩

/-- The window of the broken line runs on to the brace of a function behind it, which is then lost. -/
theorem extract_brokenLine :
    IsPreamble brokenLine ∧ (bareFunction "F").WellFormed ∧
      (bareFunction "F").signature ∈ Language.go.extract (bareFunction "F").text ∧
      (bareFunction "F").signature ∉ Language.go.extract (brokenLine ++ (bareFunction "F").text) := by
  have hwell : (bareFunction "F").WellFormed :=
    ⟨by rintro r ⟨⟩, by decide, by rintro g ⟨⟩, by rintro g ⟨⟩, trivial⟩
  refine ⟨isPreamble_brokenLine, hwell, ?_, ?_⟩
  · decide +kernel
  · decide +kernel

end Synopsis.Go
