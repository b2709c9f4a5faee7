import Synopsis.Proofs.Rust.Header
import Synopsis.Proofs.Scan.Site
import Synopsis.Proofs.Text.Word

/-!
# Rust: the type that an `impl` header names

The name of the owner is found by six cuts: the generics in front, the `where` clause behind, the trait with
its `for`, the reference sign with its words, the type arguments and the path. Each cut is shown to find its
place in a header that is written from its parts, however the parts look like the marks of another cut: an
arrow in the generics, a `for` in the condition, brackets on both sides of `for`.

* `ImplHeader` is a header in parts, `ImplHeader.text` writes it down, and `ImplHeader.WellFormed` asks of the
  parts that they do not hold the words at which the header is cut.
* Both words are found by the same search (`ReadsWord`): it passes a text that does not have the word, and
  stops at the first place where the word is written.
* What stands before the type when the generics are gone is a `Lead`, what stands behind it a `Tail`; between
  any lead and any tail the type gives its name (`ImplHeader.ownerOf_append`), and trimming and cutting the
  generics off leave such a text (`exists_generics_text`).

`implOwner?_header` joins this with the converse for arbitrary texts. A trait that begins with a bracket behind
blanks, or that ends in `for`, is the limit of it (`implOwner?_loose_trait`).
-/

namespace Synopsis.Rust

open Text

/-! ## Headers as they are written -/

/-- A word with the space behind it, where it is written. -/
def optional (word : String) (isWritten : Bool) : Text := if isWritten then word.toList ++ [' '] else []

/-- A reference sign with what may stand between it and a type. -/
structure Borrow where
  lifetime : Option Text
  isMutable : Bool
  isDynamic : Bool
deriving DecidableEq, Repr

def Borrow.text (b : Borrow) : Text :=
  '&' :: (b.lifetime.elim [] (fun l => '\'' :: (l ++ [' '])) ++
    (optional "mut" b.isMutable ++ optional "dyn" b.isDynamic))

/-- A header as it is written: `<generics> trait for &path::name<arguments> where condition`. -/
structure ImplHeader where
  generics : Option Text
  trait : Option Text
  borrow : Option Borrow
  path : List Text
  name : Text
  arguments : Option Text
  condition : Option Text
deriving DecidableEq, Repr

namespace ImplHeader

/-- The name of the type behind its path. -/
def segments (h : ImplHeader) : Text := join "::" (h.path ++ [h.name])

/-- The type without what stands before its path. -/
def bare (h : ImplHeader) : Text := h.segments ++ h.arguments.elim [] fun a => '<' :: (a ++ ['>'])

/-- The type that the header gives methods to. -/
def target (h : ImplHeader) : Text := h.borrow.elim [] Borrow.text ++ h.bare

def text (h : ImplHeader) : Text :=
  h.generics.getD [] ++ ' ' :: (h.trait.elim [] (· ++ " for ".toList) ++
    (h.target ++ h.condition.elim [] (" where ".toList ++ ·)))

end ImplHeader

/-- A name that is none of the words at which a header is cut. -/
structure IsPart (n : Text) : Prop where
  isName : isName n = true
  other : ∀ w ∈ ["for", "where"], n ≠ w.toList

/-- A header whose parts can be told apart. -/
structure ImplHeader.WellFormed (h : ImplHeader) : Prop where
  generics : ∀ g ∈ h.generics, ∀ t, Rust.generics (g ++ t) = (g, t)
  trait : ∀ t ∈ h.trait, ¬ HasWord "where" t ∧ ¬ HasKeyword "for" (t ++ [' '])
  angle : ∀ t ∈ h.trait, h.generics = none → (trimStart t).head? ≠ some '<'
  lifetime : ∀ b ∈ h.borrow, ∀ l ∈ b.lifetime, IsPart l
  path : ∀ p ∈ h.path, IsPart p
  name : IsPart h.name
  arguments : ∀ a ∈ h.arguments, ¬ HasWord "where" a ∧ ¬ HasKeyword "for" a

/-! ## Cutting at a word -/

/-- A reader that takes a word: nothing goes on before it, and the character behind it is as asked. -/
def ReadsWord (read : Place → Option Text) (next : Option Char → Bool) (word : String) : Prop :=
  ∀ p rest, read p = some rest →
    p.isWordStart = true ∧ ∃ r, after? word.toList p.rest = some r ∧ next r.head? = true

theorem readsWord_whereAt? : ReadsWord whereAt? (fun c => !c.any isWord) "where" := by
  intro p rest h
  unfold whereAt? at h
  split at h
  · next hstart => exact ⟨hstart, rest, Option.filter_eq_some_iff.1 h⟩
  · cases h

theorem readsWord_forAt? : ReadsWord forAt? (·.any isBlank) "for" := by
  intro p rest h
  unfold forAt? at h
  split at h
  · next hstart => exact ⟨hstart, exists_after?_of_keyword? h⟩
  · cases h

namespace ReadsWord

variable {read : Place → Option Text} {next : Option Char → Bool} {word : String} {s t rest : Text}

theorem breakAt?_eq_none (h : ReadsWord read next word) (ht : ¬ Stands next word t) :
    breakAt? read t = none := by
  refine Synopsis.breakAt?_eq_none ?_
  rintro a b rfl
  cases hread : read (.between a b) with
  | none => rfl
  | some rest =>
    obtain ⟨hstart, r, hafter, hnext⟩ := h _ _ hread
    exact absurd (stands_of_after? hstart hafter hnext) ht

/-- The first word is the one behind a text that has none and in whose last word it does not go on. -/
theorem breakAt?_append (h : ReadsWord read next word) (hword : IsWordRun word.toList)
    (hs : ¬ Stands next word s) (hlast : notAfter isWord s.getLast? = true) (ht : t ≠ [])
    (hread : read (.between s t) = some rest) : breakAt? read (s ++ t) = some (s, rest) := by
  refine Synopsis.breakAt?_append ht ?_ hread
  rintro a b hne rfl
  cases hearly : read (.between a (b ++ t)) with
  | none => rfl
  | some rest =>
    obtain ⟨hstart, r, hafter, hnext⟩ := h _ _ hearly
    have hb : b.getLast? = (a ++ b).getLast? := getLast?_of_suffix (List.suffix_append a b) hne
    cases hc : b.getLast? with
    | none => exact absurd (List.getLast?_eq_none_iff.1 hc) hne
    | some c =>
      rw [← hb, hc] at hlast
      exact absurd (stands_of_after?_append hword hc (by simpa [notAfter] using hlast) hstart hafter hnext) hs

end ReadsWord

theorem isWordRun_cuts : ∀ w ∈ ["for", "where"], IsWordRun w.toList := by
  unfold IsWordRun
  decide

theorem beforeWhere_of_not_hasWord {t : Text} (h : ¬ HasWord "where" t) : beforeWhere t = t := by
  rw [beforeWhere, readsWord_whereAt?.breakAt?_eq_none h]
  rfl

theorem beforeWhere_append {s t : Text} (hs : ¬ HasWord "where" s)
    (hlast : notAfter isWord s.getLast? = true) (ht : notBefore isWord t = true) :
    beforeWhere (s ++ ("where".toList ++ t)) = s := by
  have hread : whereAt? (.between s ("where".toList ++ t)) = some t := by
    rw [whereAt?, Place.isWordStart, Place.between, if_pos hlast, wholeWord?, after?_append, Option.filter_some,
      if_pos ht]
  rw [beforeWhere, readsWord_whereAt?.breakAt?_append (isWordRun_cuts _ (by decide)) hs hlast (by simp) hread]
  rfl

/-- What follows the first `for`, or the whole text. -/
def behindFor (t : Text) : Text := ((breakAt? forAt? t).map Prod.snd).getD t

theorem behindFor_of_not_hasKeyword {t : Text} (h : ¬ HasKeyword "for" t) : behindFor t = t := by
  rw [behindFor, readsWord_forAt?.breakAt?_eq_none h]
  rfl

theorem behindFor_append {s t : Text} (hs : ¬ HasKeyword "for" s)
    (hlast : notAfter isWord s.getLast? = true) (ht : notBefore isBlank t = true) :
    behindFor (s ++ ("for ".toList ++ t)) = t := by
  have hread : forAt? (.between s ("for ".toList ++ t)) = some t := by
    rw [forAt?, Place.isWordStart, Place.between, if_pos hlast]
    exact keyword?_append ht
  rw [behindFor, readsWord_forAt?.breakAt?_append (isWordRun_cuts _ (by decide)) hs hlast (by simp) hread]
  rfl

/-! ## The words of a type -/

/-- Neither of the words at which a header is cut stands in a text. -/
def Uncut (t : Text) : Prop := ∀ w ∈ ["for", "where"], ¬ HasWord w t

theorem uncut_nil : Uncut [] := by
  unfold Uncut
  decide

theorem Uncut.append_cons {s t : Text} {c : Char} (hs : Uncut s) (hc : isWord c = false) (ht : Uncut t) :
    Uncut (s ++ c :: t) := by
  intro w hw hword
  rcases hword.of_append_cons (isWordRun_cuts w hw) hc with hword | hword
  · exact hs w hw hword
  · exact ht w hw hword

theorem Uncut.cons {t : Text} {c : Char} (hc : isWord c = false) (ht : Uncut t) : Uncut (c :: t) :=
  uncut_nil.append_cons hc ht

theorem Uncut.optional_append {word : String} (hw : Uncut word.toList) (isWritten : Bool) {t : Text}
    (ht : Uncut t) : Uncut (optional word isWritten ++ t) := by
  cases isWritten with
  | false => exact ht
  | true =>
    rw [optional, if_pos rfl, List.append_assoc]
    exact hw.append_cons (by decide) ht

theorem IsPart.uncut {n : Text} (h : IsPart n) : Uncut n := by
  intro w hw hword
  exact h.other w hw (hword.eq_of_all (all_isWord_of_isName h.isName))

theorem uncut_join {ps : List Text} (h : ∀ p ∈ ps, IsPart p) : Uncut (join "::" ps) := by
  induction ps with
  | nil => exact uncut_nil
  | cons p ps ih =>
    have hp := (h p List.mem_cons_self).uncut
    have hps := fun q hq => h q (List.mem_cons_of_mem p hq)
    cases ps with
    | nil => rwa [join_singleton]
    | cons q ps =>
      rw [join_cons_cons]
      exact hp.append_cons (by decide) (.cons (by decide) (ih hps))

theorem Borrow.text_append (b : Borrow) (t : Text) : b.text ++ t =
    '&' :: (b.lifetime.elim [] (fun l => '\'' :: (l ++ [' '])) ++
      (optional "mut" b.isMutable ++ (optional "dyn" b.isDynamic ++ t))) := by
  simp [Borrow.text]

theorem Borrow.uncut_append {b : Borrow} (hb : ∀ l ∈ b.lifetime, IsPart l) {t : Text} (ht : Uncut t) :
    Uncut (b.text ++ t) := by
  have hdyn : Uncut "dyn".toList := by unfold Uncut; decide
  have hmut : Uncut "mut".toList := by unfold Uncut; decide
  have hwords := hmut.optional_append b.isMutable (hdyn.optional_append b.isDynamic ht)
  rw [Borrow.text_append]
  refine .cons (by decide) ?_
  cases hl : b.lifetime with
  | none => exact hwords
  | some l =>
    have hlife := (hb l hl).uncut.append_cons (c := ' ') (by decide) hwords
    exact .cons (by decide) (by simpa using hlife)

namespace ImplHeader

variable {h : ImplHeader}

theorem segments_parts (hh : h.WellFormed) : ∀ p ∈ h.path ++ [h.name], IsPart p := by
  intro p hp
  rcases List.mem_append.1 hp with hp | hp
  · exact hh.path p hp
  · rw [List.mem_singleton.1 hp]
    exact hh.name

theorem uncut_front (hh : h.WellFormed) : Uncut (h.borrow.elim [] Borrow.text ++ h.segments) := by
  have hsegments : Uncut h.segments := uncut_join (segments_parts hh)
  cases hb : h.borrow with
  | none => exact hsegments
  | some b => exact Borrow.uncut_append (hh.lifetime b hb) hsegments

/-- Neither of the words of a header is found in its type, also when a space follows it. -/
theorem target_words (hh : h.WellFormed) {g : Text} (hg : g = [] ∨ g = [' ']) :
    ¬ HasWord "where" (h.target ++ g) ∧ ¬ HasKeyword "for" (h.target ++ g) := by
  have hgap : Uncut g := by
    rcases hg with rfl | rfl
    · exact uncut_nil
    · exact .cons (by decide) uncut_nil
  have hfront := uncut_front hh
  have hfor := isWordRun_cuts "for" (by decide)
  have hwhere := isWordRun_cuts "where" (by decide)
  cases ha : h.arguments with
  | none =>
    have hall : Uncut (h.target ++ g) := by
      have htarget : h.target = h.borrow.elim [] Borrow.text ++ h.segments := by simp [target, bare, ha]
      rw [htarget]
      rcases hg with rfl | rfl
      · rwa [List.append_nil]
      · exact hfront.append_cons (by decide) uncut_nil
    exact ⟨hall _ (by decide), fun hkeyword => hall _ (by decide) hkeyword.hasWord⟩
  | some a =>
    have htarget : h.target ++ g =
        (h.borrow.elim [] Borrow.text ++ h.segments) ++ '<' :: (a ++ '>' :: g) := by
      simp [target, bare, ha]
    obtain ⟨hnoWhere, hnoFor⟩ := hh.arguments a ha
    rw [htarget]
    constructor
    · intro hword
      rcases hword.of_append_cons hwhere (by decide) with hword | hword
      · exact hfront _ (by decide) hword
      · rcases hword.of_append_cons hwhere (by decide) with hword | hword
        · exact hnoWhere hword
        · exact hgap _ (by decide) hword
    · intro hword
      rcases hword.of_append_cons hfor (by decide) (by decide) with hword | hword
      · exact hfront _ (by decide) hword.hasWord
      · rcases hword.of_append_cons hfor (by decide) (by decide) with hword | hword
        · exact hnoFor hword
        · exact hgap _ (by decide) hword.hasWord

end ImplHeader

/-! ## The name of a type -/

theorem notBefore_isBlank {t : Text} (h : t.head?.any isWord = true) : notBefore isBlank t = true := by
  cases t with
  | nil => rfl
  | cons c t => simpa [notBefore] using isBlank_of_isWord h

theorem head?_ne_of_isWord {t : Text} (h : t.head?.any isWord = true) {c : Char} (hc : isWord c = false) :
    t.head? ≠ some c := by
  intro he
  rw [he, Option.any_some, hc] at h
  cases h

theorem lastSegmentFrom_of_not_mem {p : Text} (hp : ':' ∉ p) (s : Text) :
    lastSegmentFrom s p = s.reverse ++ p := by
  induction p generalizing s with
  | nil => simp [lastSegmentFrom]
  | cons c p ih =>
    obtain ⟨hc, hp⟩ := not_or.1 (mt List.mem_cons.2 hp)
    rw [lastSegmentFrom, ih hp]
    · simp
    · intro _ he
      exact absurd he.symm hc

theorem lastSegmentFrom_append {p : Text} (hp : ':' ∉ p) (s t : Text) :
    lastSegmentFrom s (p ++ ("::".toList ++ t)) = lastSegmentFrom [] t := by
  induction p generalizing s with
  | nil => rfl
  | cons c p ih =>
    obtain ⟨hc, hp⟩ := not_or.1 (mt List.mem_cons.2 hp)
    rw [List.cons_append, lastSegmentFrom, ih hp]
    intro _ he
    exact absurd he.symm hc

theorem IsPart.not_mem {n : Text} (h : IsPart n) {c : Char} (hc : isWord c = false) : c ∉ n :=
  not_mem_of_all (all_isWord_of_isName h.isName) hc

theorem lastSegmentFrom_join {ps : List Text} (hps : ∀ p ∈ ps, IsPart p) {n : Text} (hn : IsPart n) :
    lastSegmentFrom [] (join "::" (ps ++ [n])) = n := by
  induction ps with
  | nil =>
    rw [List.nil_append, join_singleton, lastSegmentFrom_of_not_mem (hn.not_mem (by decide))]
    rfl
  | cons p ps ih =>
    obtain ⟨q, qs, hqs⟩ := List.exists_cons_of_ne_nil (List.append_ne_nil_of_right_ne_nil ps
      (List.cons_ne_nil n []))
    have hrest := ih fun q hq => hps q (List.mem_cons_of_mem p hq)
    rw [hqs] at hrest
    rw [List.cons_append, hqs, join_cons_cons,
      lastSegmentFrom_append ((hps p List.mem_cons_self).not_mem (by decide)), hrest]

namespace ImplHeader

variable {h : ImplHeader}

theorem segments_chars (hh : h.WellFormed) : h.segments.all (fun c => isWord c || c == ':') = true := by
  refine all_join (by decide) fun p hp => List.all_eq_true.2 fun c hc => ?_
  rw [List.all_eq_true.1 (all_isWord_of_isName (segments_parts hh p hp).isName) c hc, Bool.true_or]

/-- A type begins with a name, and no blank stands behind that. -/
theorem exists_first (hh : h.WellFormed) : ∃ p rest, IsPart p ∧ h.bare = p ++ rest ∧
    (rest = [] ∨ ∃ c u, rest = c :: u ∧ isBlank c = false ∧ isWord c = false) := by
  obtain ⟨p, ps, hps⟩ := List.exists_cons_of_ne_nil (List.append_ne_nil_of_right_ne_nil h.path
    (List.cons_ne_nil h.name []))
  have hp : IsPart p := segments_parts hh p (by rw [hps]; exact List.mem_cons_self)
  rw [bare, segments, hps]
  cases ps with
  | nil =>
    refine ⟨p, _, hp, by rw [join_singleton], ?_⟩
    cases h.arguments with
    | none => exact .inl rfl
    | some a => exact .inr ⟨'<', _, rfl, by decide, by decide⟩
  | cons q ps =>
    refine ⟨p, _, hp, by rw [join_cons_cons, List.append_assoc], .inr ?_⟩
    exact ⟨':', _, rfl, by decide, by decide⟩

theorem head?_bare (hh : h.WellFormed) : h.bare.head?.any isWord = true := by
  obtain ⟨p, rest, hp, hbare, -⟩ := exists_first hh
  obtain ⟨c, hc, hword⟩ := (isWordRun_of_isName hp.isName).head?
  rw [hbare, List.head?_append, hc]
  exact hword

theorem bare_trimmed (hh : h.WellFormed) : h.bare ≠ [] ∧ trim h.bare = h.bare := by
  have hsolid : ∀ c ∈ h.segments, isBlank c = false := by
    intro c hc
    have hchars := List.all_eq_true.1 (segments_chars hh) c hc
    rcases Bool.or_eq_true_iff.1 hchars with hc | hc
    · exact isBlank_of_isWord hc
    · rw [eq_of_beq hc]
      decide
  have hne : h.segments ≠ [] := join_ne_nil "::" (by simp) fun p hp =>
    (isWordRun_of_isName (segments_parts hh p hp).isName).1
  refine ⟨List.append_ne_nil_of_left_ne_nil hne _, ?_⟩
  rw [bare]
  cases h.arguments with
  | none => rw [Option.elim_none, List.append_nil, trim_of_solid hsolid]
  | some a => exact trim_around hne (trim_of_solid hsolid) (t := ['>']) (by simp) (by decide) ('<' :: a)

theorem target_trimmed (hh : h.WellFormed) : h.target ≠ [] ∧ trim h.target = h.target := by
  obtain ⟨hne, htrim⟩ := bare_trimmed hh
  refine ⟨List.append_ne_nil_of_right_ne_nil _ hne, ?_⟩
  rw [target]
  cases h.borrow with
  | none => exact htrim
  | some b => exact trim_around (s := ['&']) (by simp) (by decide) hne htrim _

theorem keyword?_bare (hh : h.WellFormed) {word : String} (hword : IsWordRun word.toList) :
    keyword? word h.bare = none := by
  obtain ⟨p, rest, hp, hbare, hrest⟩ := exists_first hh
  have hsolid : ∀ c ∈ p, isBlank c = false := fun c hc =>
    isBlank_of_isWord (List.all_eq_true.1 (all_isWord_of_isName hp.isName) c hc)
  rw [hbare]
  rcases hrest with rfl | ⟨c, u, rfl, hblank, hc⟩
  · rw [List.append_nil, keyword?_of_solid hsolid]
  · exact keyword?_eq_none_of_solid hsolid hblank (not_mem_of_all hword.2 hc) u

/-- The sign of a reference and its lifetime are skipped. -/
theorem reference_append {l : Option Text} (hl : ∀ n ∈ l, IsPart n) {t : Text}
    (ht : t.head?.any isWord = true) :
    reference ('&' :: (l.elim [] (fun n => '\'' :: (n ++ [' '])) ++ t)) = (true, t) := by
  have hsign (u : Text) : char? '&' ('&' :: u) = some u := after?_append ['&'] u
  have hblank := notBefore_isBlank ht
  rw [reference, hsign]
  refine congrArg (Prod.mk true) ?_
  cases l with
  | none =>
    have htrim : trimStart t = t := trimStart_eq_self (by simpa [notBefore] using hblank)
    have hquote : char? '\'' t = none := after?_eq_none_of_head rfl (head?_ne_of_isWord ht (by decide))
    rw [Option.elim_none, List.nil_append, htrim, skipLifetime, hquote]
    rfl
  | some n =>
    obtain ⟨hne, hall⟩ := isWordRun_of_isName (hl n rfl).isName
    have hquote : char? '\'' ('\'' :: (n ++ ' ' :: t)) = some (n ++ ' ' :: t) := after?_append ['\''] _
    have hword : word? (n ++ ' ' :: t) = some (n, ' ' :: t) := run?_append hne hall (by simp [notBefore]; decide)
    have hspace : skip1? isBlank (' ' :: t) = some t := by
      rw [skip1?, show ' ' :: t = [' '] ++ t from rfl, run?_append (by simp) (by decide) hblank]
      rfl
    rw [Option.elim_some, List.cons_append, List.append_assoc, List.singleton_append,
      trimStart_cons_of_not (by decide), skipLifetime, hquote, Option.bind_some, hword, Option.bind_some]
    exact congrArg (Option.getD · _) hspace

/-- A word is skipped where it is written, and nothing where it is not. -/
theorem flag_optional (word : String) (isWritten : Bool) {t : Text} (ht : notBefore isBlank t = true)
    (hnone : keyword? word t = none) :
    (flag word (optional word isWritten ++ t)).2 = t := by
  cases isWritten with
  | false => exact congrArg Prod.snd (flag_of_none hnone)
  | true => rw [optional, if_pos rfl, List.append_assoc, List.singleton_append, flag_append word ht]

theorem head?_optional {word : String} (hword : IsWordRun word.toList) (isWritten : Bool) {t : Text}
    (ht : t.head?.any isWord = true) :
    (optional word isWritten ++ t).head?.any isWord = true := by
  cases isWritten with
  | false => exact ht
  | true =>
    obtain ⟨c, hc, hisWord⟩ := hword.head?
    rw [optional, if_pos rfl, List.append_assoc, List.head?_append, hc]
    exact hisWord

/-- What stands before the path of a type is skipped. -/
theorem bareType_target (hh : h.WellFormed) : bareType h.target = h.bare := by
  have hbare := head?_bare hh
  rw [target]
  cases hb : h.borrow with
  | none =>
    have hreference : reference h.bare = (false, h.bare) := by
      rw [reference, char?, after?_eq_none_of_head (c := '&') rfl (head?_ne_of_isWord hbare (by decide))]
    simp only [Option.elim_none, List.nil_append, bareType, hreference, Bool.false_eq_true, if_false]
  | some b =>
    have hmut : IsWordRun "mut".toList := by unfold IsWordRun; decide
    have hdyn : IsWordRun "dyn".toList := by unfold IsWordRun; decide
    rw [Option.elim_some, Borrow.text_append]
    -- The words are skipped from the left, so each is shown not to be there once its own turn is over.
    have hdynamic : (flag "dyn" (optional "dyn" b.isDynamic ++ h.bare)).2 = h.bare :=
      flag_optional "dyn" b.isDynamic (notBefore_isBlank hbare) (keyword?_bare hh hdyn)
    have hnone : keyword? "mut" (optional "dyn" b.isDynamic ++ h.bare) = none := by
      cases b.isDynamic with
      | false => exact keyword?_bare hh hmut
      | true => exact keyword?_eq_none_of_head (c := 'm') rfl (by simp [optional])
    have hhead := head?_optional hdyn b.isDynamic hbare
    generalize optional "dyn" b.isDynamic ++ h.bare = d at hdynamic hnone hhead
    have hmutable : (flag "mut" (optional "mut" b.isMutable ++ d)).2 = d :=
      flag_optional "mut" b.isMutable (notBefore_isBlank hhead) hnone
    have hhead := head?_optional hmut b.isMutable hhead
    generalize optional "mut" b.isMutable ++ d = m at hmutable hhead
    rw [bareType, reference_append (hh.lifetime b hb) hhead]
    exact (congrArg (fun u => (flag "dyn" u).2) hmutable).trans hdynamic

/-- The name is what is left of a type when all around it is cut off. -/
theorem trim_lastSegmentFrom (hh : h.WellFormed) : trim (lastSegmentFrom [] (before '<' h.bare)) = h.name := by
  have hopen : '<' ∉ h.segments := not_mem_of_all (segments_chars hh) (by decide)
  have hbefore : before '<' h.bare = h.segments := by
    rw [bare]
    cases h.arguments with
    | none => rw [Option.elim_none, List.append_nil, before_eq_self hopen]
    | some a => exact before_append hopen _
  rw [hbefore, segments, lastSegmentFrom_join hh.path hh.name, trim_of_isName hh.name.isName]

end ImplHeader

/-! ## The name in a header -/

/-- What is read as the name of the owner once the generics are cut off. -/
def ownerOf (t : Text) : Text :=
  trim (lastSegmentFrom [] (before '<' (bareType (trim (behindFor (beforeWhere t))))))

theorem implOwner?_eq (header : Text) : implOwner? header =
    if isName (ownerOf (generics (trim header)).2) then some (ownerOf (generics (trim header)).2) else none := rfl

/-- What may stand before the type of a header behind the generics. -/
inductive Lead : Text → Prop
  | blank {g : Text} (hg : blank g = true) : Lead g
  | trait {s : Text} (hwhere : ¬ HasWord "where" s) (hfor : ¬ HasKeyword "for" s)
      (hlast : notAfter isWord s.getLast? = true) : Lead (s ++ "for ".toList)

/-- What may stand behind the type of a header. -/
inductive Tail : Text → Prop
  | nil : Tail []
  | condition {w : Text} (hw : notBefore isWord w = true) : Tail (" where".toList ++ w)

theorem Lead.notAfter {s : Text} (h : Lead s) : notAfter isWord s.getLast? = true := by
  cases h with
  | blank hg => exact notAfter_getLast?_of_blank hg
  | trait =>
    rw [show "for ".toList = "for".toList ++ [' '] from rfl, ← List.append_assoc, List.getLast?_concat]
    decide

theorem Lead.not_hasWord {s : Text} (h : Lead s) : ¬ HasWord "where" s := by
  have hword := isWordRun_cuts "where" (by decide)
  cases h with
  | blank hg => exact not_stands_of_blank hword hg
  | trait hwhere _ hlast =>
    intro hs
    rcases Stands.of_append hword hlast hs with hs | hs
    · exact hwhere hs
    · exact absurd hs (by decide)

/-- A trait makes a lead of a header, with blanks before it or without. -/
theorem lead_of_trait {t s g k : Text} (hwhere : ¬ HasWord "where" t) (hfor : ¬ HasKeyword "for" (t ++ [' ']))
    (hg : blank g = true) (hk : blank k = true) (hs : g ++ s = k ++ (t ++ [' '])) :
    Lead (s ++ "for ".toList) := by
  have hiff {next : Option Char → Bool} {w : String} (hw : w ∈ ["for", "where"]) :
      Stands next w s ↔ Stands next w (t ++ [' ']) := by
    rw [← stands_blank_append (isWordRun_cuts w hw) hg, hs, stands_blank_append (isWordRun_cuts w hw) hk]
  refine .trait ?_ ?_ ?_
  · intro hword
    rcases HasWord.of_append_cons (isWordRun_cuts "where" (by decide)) (by decide) ((hiff (by decide)).1 hword)
      with hword | hword
    · exact hwhere hword
    · exact absurd hword (by decide)
  · exact fun hword => hfor ((hiff (by decide)).1 hword)
  · by_cases hne : s = []
    · rw [hne]
      rfl
    · rw [getLast?_of_suffix (List.suffix_append g s) hne, hs, ← List.append_assoc, List.getLast?_concat]
      decide

namespace ImplHeader

variable {h : ImplHeader} {lead tail : Text}

/-- The text before a `where` clause ends in the type. -/
theorem exists_beforeWhere (hh : h.WellFormed) (hlead : Lead lead) (htail : Tail tail) :
    ∃ g, (g = [] ∨ g = [' ']) ∧ beforeWhere (lead ++ (h.target ++ tail)) = lead ++ (h.target ++ g) := by
  have hword {g : Text} (hg : g = [] ∨ g = [' ']) : ¬ HasWord "where" (lead ++ (h.target ++ g)) := by
    intro hs
    rcases Stands.of_append (isWordRun_cuts "where" (by decide)) hlead.notAfter hs with hs | hs
    · exact hlead.not_hasWord hs
    · exact (target_words hh hg).1 hs
  cases htail with
  | nil => exact ⟨[], .inl rfl, beforeWhere_of_not_hasWord (hword (.inl rfl))⟩
  | @condition w hw =>
    refine ⟨[' '], .inr rfl, ?_⟩
    have hcut : lead ++ (h.target ++ (" where".toList ++ w)) =
        (lead ++ (h.target ++ [' '])) ++ ("where".toList ++ w) := by simp
    rw [hcut]
    refine beforeWhere_append (hword (.inr rfl)) ?_ hw
    rw [← List.append_assoc, List.getLast?_concat]
    decide

/-- What stands behind the first `for` is the type, and without a trait all of the text is. -/
theorem trim_behindFor (hh : h.WellFormed) (hlead : Lead lead) {g : Text} (hg : g = [] ∨ g = [' ']) :
    trim (behindFor (lead ++ (h.target ++ g))) = h.target := by
  obtain ⟨hne, htrim⟩ := target_trimmed hh
  have hblank : blank g = true := by rcases hg with rfl | rfl <;> rfl
  have hpad {e : Text} (he : blank e = true) : trim (e ++ (h.target ++ g)) = h.target := by
    rw [← List.append_assoc, trim_pad he hblank, htrim]
  cases hlead with
  | blank he =>
    have hword : ¬ HasKeyword "for" (lead ++ (h.target ++ g)) := by
      intro hs
      exact (target_words hh hg).2 ((stands_blank_append (isWordRun_cuts "for" (by decide)) he).1 hs)
    rw [behindFor_of_not_hasKeyword hword, hpad he]
  | @trait s _ hfor hlast =>
    have hhead := (trim_eq_self_iff.1 htrim).1
    rw [head?_of_isPrefix (List.prefix_append _ g) hne] at hhead
    have hsolid : notBefore isBlank (h.target ++ g) = true := by rw [notBefore, hhead, Bool.not_false]
    rw [List.append_assoc, behindFor_append hfor hlast hsolid]
    exact hpad blank_nil

theorem ownerOf_append (hh : h.WellFormed) (hlead : Lead lead) (htail : Tail tail) :
    ownerOf (lead ++ (h.target ++ tail)) = h.name := by
  obtain ⟨g, hg, hbefore⟩ := exists_beforeWhere hh hlead htail
  rw [ownerOf, hbefore, trim_behindFor hh hlead hg, bareType_target hh, trim_lastSegmentFrom hh]

/-- Trimming a header at its end trims its condition, whatever stands before the type. -/
theorem exists_tail (hh : h.WellFormed) : ∃ tail, Tail tail ∧ ∀ s,
    trimEnd (s ++ (h.target ++ h.condition.elim [] (" where ".toList ++ ·))) = s ++ (h.target ++ tail) := by
  cases h.condition with
  | none =>
    refine ⟨[], .nil, fun s => ?_⟩
    obtain ⟨hne, htrim⟩ := target_trimmed hh
    rw [Option.elim_none, List.append_nil, trimEnd_append_of_trim hne htrim]
  | some w =>
    refine ⟨" where".toList ++ trimEnd (' ' :: w), .condition ?_, fun s => ?_⟩
    · obtain ⟨g, -, hw, -⟩ := exists_trimEnd (' ' :: w)
      cases hend : trimEnd (' ' :: w) with
      | nil => rfl
      | cons c u =>
        rw [hend] at hw
        obtain ⟨rfl, -⟩ := List.cons.inj hw
        show (!isWord ' ') = true
        decide
    · have hcut : s ++ (h.target ++ (" where ".toList ++ w)) =
          (s ++ (h.target ++ " wher".toList)) ++ 'e' :: ' ' :: w := by simp
      rw [Option.elim_some, hcut, trimEnd_append_cons (by decide)]
      simp

theorem head?_target (hh : h.WellFormed) (t : Text) : (h.target ++ t).head? ≠ some '<' := by
  rw [target]
  cases h.borrow with
  | some b => exact fun he => absurd (Option.some.inj he) (by decide)
  | none =>
    refine head?_ne_of_isWord ?_ (by decide)
    have hbare := head?_bare hh
    obtain ⟨c, u, hcons⟩ := List.exists_cons_of_ne_nil (bare_trimmed hh).1
    rw [hcons] at hbare
    rw [Option.elim_none, List.nil_append, hcons]
    exact hbare

/-- Without generics a header starts with its trait or its type, neither of which is read as generics. -/
theorem exists_lead_of_none (hh : h.WellFormed) (hg : h.generics = none) : ∃ lead, Lead lead ∧
    (∀ t, (lead ++ (h.target ++ t)).head? ≠ some '<') ∧
    trimStart h.text = lead ++ (h.target ++ h.condition.elim [] (" where ".toList ++ ·)) := by
  have htext : h.text = ' ' :: (h.trait.elim [] (· ++ " for ".toList) ++
      (h.target ++ h.condition.elim [] (" where ".toList ++ ·))) := by
    rw [text, hg]
    rfl
  rw [htext]
  generalize h.condition.elim [] (" where ".toList ++ ·) = condition
  cases ht : h.trait with
  | none =>
    refine ⟨[], .blank blank_nil, head?_target hh, ?_⟩
    obtain ⟨hne, htrim⟩ := target_trimmed hh
    have hhead := (trim_eq_self_iff.1 htrim).1
    rw [head?_of_isPrefix (List.prefix_append _ condition) hne] at hhead
    exact (trimStart_append_of_blank (g := [' ']) rfl _).trans (trimStart_eq_self hhead)
  | some t =>
    have hangle : (trimStart (t ++ [' '])).head? ≠ some '<' := by
      rw [head?_trimStart_append rfl]
      exact hh.angle t ht hg
    obtain ⟨hwhere, hfor⟩ := hh.trait t ht
    obtain ⟨g, hblank, hcut, -⟩ := exists_trimStart (t ++ [' '])
    refine ⟨trimStart (t ++ [' ']) ++ "for ".toList, ?_, ?_, ?_⟩
    · exact lead_of_trait hwhere hfor hblank (k := []) rfl hcut.symm
    · intro u
      cases hs : trimStart (t ++ [' ']) with
      | nil => exact fun he => absurd (Option.some.inj he) (by decide)
      | cons c s =>
        rw [hs] at hangle
        exact hangle
    · have hcut : ' ' :: ((t ++ " for ".toList) ++ (h.target ++ condition)) =
          [' '] ++ ((t ++ [' ']) ++ ("for ".toList ++ (h.target ++ condition))) := by simp
      rw [Option.elim_some, hcut, trimStart_append_of_blank rfl, trimStart_append_solid rfl, List.append_assoc]

theorem lead_of_some (hh : h.WellFormed) : Lead (' ' :: h.trait.elim [] (· ++ " for ".toList)) := by
  cases ht : h.trait with
  | none => exact .blank rfl
  | some t =>
    obtain ⟨hwhere, hfor⟩ := hh.trait t ht
    have hlead := lead_of_trait hwhere hfor (g := []) (k := [' ']) rfl rfl rfl
    simpa using hlead

end ImplHeader

/-- Generics that end where they stand, whatever follows, are not empty. -/
theorem head?_of_generics_append {g : Text} (h : ∀ t, generics (g ++ t) = (g, t)) : g.head? = some '<' := by
  cases g with
  | nil => exact absurd (h "<>".toList) (by decide)
  | cons c g =>
    by_cases hopen : c = '<'
    · rw [hopen]
      rfl
    · have hnone := h []
      rw [List.append_nil, generics, if_neg (by simpa using hopen)] at hnone
      cases hnone

/-- Behind its generics a trimmed header is the type between a lead and a tail. -/
theorem exists_generics_text {h : ImplHeader} (hh : h.WellFormed) : ∃ lead tail, Lead lead ∧ Tail tail ∧
    (generics (trim h.text)).2 = lead ++ (h.target ++ tail) := by
  obtain ⟨tail, htail, htrim⟩ := ImplHeader.exists_tail hh
  cases hg : h.generics with
  | none =>
    obtain ⟨lead, hlead, hhead, htext⟩ := ImplHeader.exists_lead_of_none hh hg
    refine ⟨lead, tail, hlead, htail, ?_⟩
    rw [trim, htext, htrim, generics, if_neg (hhead tail)]
  | some g =>
    have hclose := hh.generics g hg
    have htext : h.text = (g ++ ' ' :: h.trait.elim [] (· ++ " for ".toList)) ++
        (h.target ++ h.condition.elim [] (" where ".toList ++ ·)) := by
      simp [ImplHeader.text, hg]
    have hstart : trimStart h.text = h.text := by
      refine trimStart_eq_self ?_
      rw [htext, List.append_assoc, List.head?_append, head?_of_generics_append hclose, Option.some_or]
      decide
    refine ⟨_, tail, ImplHeader.lead_of_some hh, htail, ?_⟩
    rw [trim, hstart, htext, htrim, List.append_assoc, hclose]

theorem implOwner?_text {h : ImplHeader} (hh : h.WellFormed) : implOwner? h.text = some h.name := by
  obtain ⟨lead, tail, hlead, htail, htext⟩ := exists_generics_text hh
  rw [implOwner?_eq, htext, ImplHeader.ownerOf_append hh hlead htail, if_pos hh.name.isName]

/-- The owner of a header is the last name in the path of its type, and from any other text it is a name or
    nothing. -/
theorem implOwner?_header : (∀ h : ImplHeader, h.WellFormed → implOwner? h.text = some h.name) ∧
    ∀ header name, implOwner? header = some name → isName name = true :=
  ⟨fun _ => implOwner?_text, fun _ _ => isName_of_implOwner?⟩

/-- `<F: Fn(A) -> B> Visit<F> for &'a mut dyn tree::Node<for<'b> Rc<F>> where F: for<'b> Fn(&'b A)` -/
def visitHeader : ImplHeader where
  generics := some "<F: Fn(A) -> B>".toList
  trait := some "Visit<F>".toList
  borrow := some ⟨some "a".toList, true, true⟩
  path := ["tree".toList]
  name := "Node".toList
  arguments := some "for<'b> Rc<F>".toList
  condition := some "F: for<'b> Fn(&'b A) where".toList

theorem visitHeader_wellFormed : visitHeader.WellFormed := by
  have hpart : ∀ n ∈ ["a".toList, "tree".toList, "Node".toList], IsPart n := fun n hn =>
    ⟨by revert n; decide, by revert n; decide⟩
  refine ⟨?_, by decide, by decide, ?_, ?_, hpart _ (by decide), by decide⟩
  · rintro _ ⟨⟩ t
    exact genericsFrom_append (by decide) t
  · rintro _ ⟨⟩ _ ⟨⟩
    exact hpart _ (by decide)
  · intro p hp
    obtain rfl : p = "tree".toList := List.mem_singleton.1 hp
    exact hpart _ (by decide)

theorem implOwner?_visitHeader : visitHeader.WellFormed ∧ implOwner? visitHeader.text = some "Node".toList :=
  ⟨visitHeader_wellFormed, implOwner?_header.1 visitHeader visitHeader_wellFormed⟩

/-- A trait that is only asked not to hold a cut in itself. -/
def IsLooseTrait (t : Text) : Prop :=
  t ≠ [] ∧ t.head? ≠ some '<' ∧ ¬ HasWord "where" t ∧ ¬ HasKeyword "for" t

instance (t : Text) : Decidable (IsLooseTrait t) := inferInstanceAs (Decidable (_ ∧ _))

/-- The header of a plain type with a trait. -/
def plainHeader (trait : Text) : ImplHeader where
  generics := none
  trait := some trait
  borrow := none
  path := []
  name := "P".toList
  arguments := none
  condition := none

/-- That is not enough: a bracket behind blanks is read as the start of generics, and the first of two `for`
    ends the trait. -/
theorem implOwner?_loose_trait : IsPart "P".toList ∧
    (IsLooseTrait " <A".toList ∧ implOwner? (plainHeader " <A".toList).text = none) ∧
    (IsLooseTrait "A for".toList ∧ implOwner? (plainHeader "A for".toList).text = none) := by
  refine ⟨⟨?_, ?_⟩, ⟨?_, ?_⟩, ?_, ?_⟩ <;> decide

end Synopsis.Rust
