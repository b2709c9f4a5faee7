import Synopsis.Proofs.Comment
import Synopsis.Proofs.Nesting.Depth
import Synopsis.Proofs.Script.Agreement

/-!
# TypeScript and JavaScript: constants that rename a member

A constant bound to names joined by dots counts as an alias when its statement ends behind the names. The
reader takes a semicolon, the end of a line and the end of the text for the end of the statement. So when
something follows the names that belongs to the same expression, whether there is an alias hangs on the
blanks before it: there is none while the expression goes on in the line, and there is one as soon as it
goes on in the next (`alias_of_continued`).
-/

namespace Synopsis.Script

open Text

/-! ## Chains -/

/-- Names joined by dots, two at least. -/
def IsChain (t : Text) : Prop :=
  ∃ names : List Text, 2 ≤ names.length ∧ (∀ n ∈ names, isDollarName n = true) ∧ t = join "." names

/-- Whether a character may stand in a chain. -/
def isChainChar (c : Char) : Bool := isDollarWord c || c == '.'

/-- Tabs and spaces up to what is taken for the end of a statement. -/
def Ended (t : Text) : Prop := ∀ c ∈ (t.dropWhile isIndent).head?, c = ';' ∨ c = '\n' ∨ c = '\r'

theorem dot_not_mem_name {n : Text} (h : isDollarName n = true) : '.' ∉ n :=
  not_mem_of_isDollarName h (by decide +kernel)

theorem splitOn_join {names : List Text} (hne : names ≠ []) (h : ∀ n ∈ names, isDollarName n = true) :
    (join "." names).splitOn '.' = names :=
  List.splitOn_intercalate '.' (fun n hn => dot_not_mem_name (h n hn)) hne

theorem isChain_iff {t : Text} :
    IsChain t ↔ 2 ≤ (t.splitOn '.').length ∧ (t.splitOn '.').all isDollarName = true := by
  constructor
  · rintro ⟨names, hlength, hnames, rfl⟩
    have hne : names ≠ [] := by
      rintro rfl
      simp at hlength
    rw [splitOn_join hne hnames]
    exact ⟨hlength, List.all_eq_true.2 hnames⟩
  · rintro ⟨hlength, hnames⟩
    exact ⟨t.splitOn '.', hlength, List.all_eq_true.1 hnames, (List.intercalate_splitOn '.').symm⟩

instance : DecidablePred IsChain := fun _ => decidable_of_iff _ isChain_iff.symm

theorem IsChain.all {t : Text} (h : IsChain t) : t.all isChainChar = true := by
  obtain ⟨names, -, hnames, rfl⟩ := h
  refine all_join (by decide +kernel) fun n hn => List.all_eq_true.2 fun c hc => ?_
  rw [isChainChar, List.all_eq_true.1 (all_isDollarWord (hnames n hn)).2 c hc, Bool.true_or]

theorem IsChain.exists_cons {t : Text} (h : IsChain t) : ∃ c u, t = c :: u ∧ isDollarWord c = true := by
  obtain ⟨names, hlength, hnames, rfl⟩ := h
  obtain ⟨n, names, rfl⟩ := List.exists_cons_of_length_pos (Nat.lt_of_lt_of_le Nat.two_pos hlength)
  obtain ⟨m, names, rfl⟩ := List.exists_cons_of_length_pos (Nat.le_of_succ_le_succ hlength)
  obtain ⟨hne, hall⟩ := all_isDollarWord (hnames n List.mem_cons_self)
  obtain ⟨c, u, rfl⟩ := List.exists_cons_of_ne_nil hne
  exact ⟨c, _, join_cons_cons "." (c :: u) m names, (Bool.and_eq_true_iff.1 hall).1⟩

theorem isChainChar_of_isIndent {c : Char} (h : isIndent c = true) : isChainChar c = false := by
  have hc : c = ' ' ∨ c = '\t' := by simpa [isIndent] using h
  rcases hc with rfl | rfl <;> decide +kernel

/-- No chain goes on where a statement ends. -/
theorem Ended.notBefore {t : Text} (h : Ended t) : notBefore isChainChar t = true := by
  cases t with
  | nil => rfl
  | cons c t =>
    have hc : isChainChar c = false := by
      by_cases hindent : isIndent c = true
      · exact isChainChar_of_isIndent hindent
      · have hdrop : ((c :: t).dropWhile isIndent).head? = some c := by
          rw [List.dropWhile_cons_of_neg hindent, List.head?_cons]
        rcases h c hdrop with rfl | rfl | rfl <;> decide +kernel
    simp [Text.notBefore, hc]

/-! ## The reader -/

/-- What the reader of an alias takes behind the equals sign. -/
def chain? (t : Text) : Option (Text × Text) :=
  (run? isChainChar t).filter fun m =>
    2 ≤ (m.1.splitOn '.').length && (m.1.splitOn '.').all isDollarName &&
      (m.2.dropWhile isIndent).head?.all fun c => c == ';' || c == '\n' || c == '\r'

theorem memberBinding?_eq (p : Place) (lead : Text) : memberBinding? p lead =
    (constant? p lead).bind fun m => (char? '=' (trimStart m.2)).bind fun t =>
      (chain? (trimStart t)).map fun n => (m.1, n.2) := by
  unfold memberBinding?
  cases constant? p lead with
  | none => rfl
  | some m =>
    simp only [Option.bind_eq_bind, Option.bind_some]
    cases char? '=' (trimStart m.2) with
    | none => rfl
    | some t =>
      have hrun : run? (fun c => isDollarWord c || c == '.') (trimStart t) =
        run? isChainChar (trimStart t) := rfl
      simp only [Option.bind_some, hrun, chain?]
      cases run? isChainChar (trimStart t) with
      | none => rfl
      | some n =>
        rw [Option.bind_some, Option.filter_some]
        simp only [ge_iff_le, Bool.and_eq_true, decide_eq_true_eq, and_assoc]
        split <;> rfl

theorem ended_iff {t : Text} : Ended t ↔
    ((t.dropWhile isIndent).head?.all fun c => c == ';' || c == '\n' || c == '\r') = true := by
  unfold Ended
  cases (t.dropWhile isIndent).head? with
  | none => simp
  | some c => simp [or_assoc]

theorem chain?_eq_some {t c e : Text} : chain? t = some (c, e) ↔ t = c ++ e ∧ IsChain c ∧ Ended e := by
  unfold chain?
  rw [Option.filter_eq_some_iff, Bool.and_eq_true_iff, Bool.and_eq_true_iff, decide_eq_true_iff,
    ← isChain_iff, ← ended_iff]
  constructor
  · rintro ⟨hrun, hchain, hended⟩
    exact ⟨(eq_append_of_run? hrun).1, hchain, hended⟩
  · rintro ⟨rfl, hchain, hended⟩
    obtain ⟨x, u, rfl, -⟩ := hchain.exists_cons
    exact ⟨run?_append (List.cons_ne_nil x u) hchain.all hended.notBefore, hchain, hended⟩

/-! ## Chains that something follows -/

/-- A constant bound to a chain, with what follows the chain: blanks and a sign that goes on with the
    expression. -/
structure Continued where
  name : Text
  chain : Text
  gap : Text
  sign : Char
deriving DecidableEq, Repr

/-- What is written up to the end of the chain. -/
def Continued.head (d : Continued) : Text :=
  "const ".toList ++ (d.name ++ (" = ".toList ++ d.chain))

theorem Continued.head_eq (d : Continued) :
    d.head = "const ".toList ++ (d.name ++ (" = ".toList ++ d.chain)) := rfl

/-- What is written behind the chain. -/
def Continued.tail (d : Continued) (rest : Text) : Text := d.gap ++ d.sign :: rest

/-- A source that begins with the constant. -/
def Continued.text (d : Continued) (rest : Text) : Text := d.head ++ d.tail rest

/-- A constant whose parts can be told apart. -/
structure Continued.WellFormed (d : Continued) : Prop where
  name : isDollarName d.name = true
  chain : IsChain d.chain
  gap : blank d.gap = true
  sign : d.sign = '.' ∨ d.sign = '(' ∨ d.sign = '['

/-- Behind the chain the line ends, tabs and spaces apart. -/
def Continued.BreaksLine (d : Continued) : Prop :=
  (d.gap.dropWhile isIndent).head? = some '\n' ∨ (d.gap.dropWhile isIndent).head? = some '\r'

/-- What follows makes the chain a longer one, with which the statement ends. -/
def Continued.Extends (d : Continued) (rest : Text) : Prop :=
  ∃ c e, d.chain ++ d.tail rest = c ++ e ∧ d.chain.length < c.length ∧ IsChain c ∧ Ended e

theorem ended_tail_iff {d : Continued} (h : d.WellFormed) (rest : Text) :
    Ended (d.tail rest) ↔ d.BreaksLine := by
  have hsign : isIndent d.sign = false ∧ d.sign ≠ ';' ∧ d.sign ≠ '\n' ∧ d.sign ≠ '\r' := by
    rcases h.sign with hs | hs | hs <;> rw [hs] <;> decide
  unfold Ended Continued.BreaksLine Continued.tail
  rw [dropWhile_append_cons hsign.1]
  cases hdrop : d.gap.dropWhile isIndent with
  | nil => simp [hsign]
  | cons c g =>
    have hblank : isBlank c = true :=
      List.all_eq_true.1 h.gap c ((List.dropWhile_suffix _).subset (hdrop ▸ List.mem_cons_self))
    have hsemicolon : c ≠ ';' := ne_of_blank hblank (by decide)
    simp [hsemicolon]

/-- The chain is read where its line ends, or a longer one is. -/
theorem exists_chain_iff {d : Continued} (h : d.WellFormed) (rest : Text) :
    (∃ c e, d.chain ++ d.tail rest = c ++ e ∧ IsChain c ∧ Ended e) ↔
      d.BreaksLine ∨ d.Extends rest := by
  rw [← ended_tail_iff h rest]
  constructor
  · rintro ⟨c, e, hcut, hc, he⟩
    rcases List.append_eq_append_iff.1 hcut with ⟨u, rfl, hu⟩ | ⟨u, hu, rfl⟩
    · cases u with
      | nil => exact .inl (by rwa [hu])
      | cons x u => exact .inr ⟨_, e, hcut, by simp, hc, he⟩
    · -- What is left of the chain would have to end the statement.
      cases u with
      | nil => exact .inl he
      | cons x u =>
        have hx : isChainChar x = true :=
          List.all_eq_true.1 h.chain.all x (hu ▸ List.mem_append_right c List.mem_cons_self)
        have hnot := he.notBefore
        simp [notBefore, hx] at hnot
  · rintro (hended | ⟨c, e, hcut, -, hc, he⟩)
    · exact ⟨d.chain, d.tail rest, rfl, h.chain, hended⟩
    · exact ⟨c, e, hcut, hc, he⟩

theorem Continued.strip_text {d : Continued} (h : d.WellFormed) (rest : Text) :
    CommentStyle.slashes.strip (d.text rest) = d.text (CommentStyle.slashes.strip rest) := by
  have hname : '/' ∉ d.name := not_mem_of_isDollarName h.name (by decide +kernel)
  have hchain : '/' ∉ d.chain := not_mem_of_all h.chain.all (by decide +kernel)
  have hhead : '/' ∉ d.head := by simp [Continued.head_eq, hname, hchain]
  have hgap : '/' ∉ d.gap := not_mem_of_all h.gap (by decide)
  have hsign : d.sign ≠ '/' := by rcases h.sign with hs | hs | hs <;> rw [hs] <;> decide
  unfold Continued.text Continued.tail
  rw [CommentStyle.strip_slashes_append_of_not_mem hhead,
    CommentStyle.strip_slashes_append_of_not_mem hgap, CommentStyle.strip_slashes_cons hsign]

/-! ## Hits -/

/-- What is read of the constant at the start of a source. -/
def Continued.binder (d : Continued) : Head where
  name := d.name
  nameOffset := "const ".toList.length

theorem aliasAt?_text {d : Continued} (h : d.WellFormed) (t : Text) :
    aliasAt? (.between [] (d.text t)) = (chain? (d.chain ++ d.tail t)).map fun n => (d.binder, n.2) := by
  have hwritten : d.text t = "const ".toList ++ (d.name ++ (" = ".toList ++ (d.chain ++ d.tail t))) := by
    simp only [Continued.text, Continued.head_eq, List.append_assoc]
  have hconstant : constant? (.between [] (d.text t)) (d.text t) =
      some (d.binder, " = ".toList ++ (d.chain ++ d.tail t)) := by
    have hoffset := Place.offsetOf_between [] "const ".toList
      (d.name ++ (" = ".toList ++ (d.chain ++ d.tail t)))
    rw [← hwritten] at hoffset
    have hread := constant?_append (.between [] (d.text t)) false h.name
      (" = ".toList ++ (d.chain ++ d.tail t)) rfl
    rw [hoffset] at hread
    conv => lhs; arg 2; rw [hwritten]
    exact hread
  have hstart : trimStart (' ' :: (d.chain ++ d.tail t)) = d.chain ++ d.tail t := by
    obtain ⟨c, u, hcons, hc⟩ := h.chain.exists_cons
    have hsolid : (d.chain ++ d.tail t).head?.any isBlank = false := by
      rw [hcons]
      exact isBlank_of_isDollarWord hc
    exact (trimStart_append_of_blank (g := [' ']) rfl _).trans (trimStart_eq_self hsolid)
  have hequals : char? '=' (trimStart (" = ".toList ++ (d.chain ++ d.tail t))) =
      some (' ' :: (d.chain ++ d.tail t)) := rfl
  have hfirst : memberBinding? (.between [] (d.text t)) (d.text t) =
      (chain? (d.chain ++ d.tail t)).map fun n => (d.binder, n.2) := by
    rw [memberBinding?_eq, hconstant, Option.bind_some, hequals, Option.bind_some, hstart]
  have hline : aliasAt? (.between [] (d.text t)) =
      (memberBinding? (.between [] (d.text t)) (d.text t)).or none := rfl
  rw [hline, Option.or_none, hfirst]

/-- Where a chain is read behind the equals sign there is a hit. -/
theorem exists_mem_sites {d : Continued} (h : d.WellFormed) {t : Text}
    (hends : d.BreaksLine ∨ d.Extends t) :
    ∃ e, ⟨0, d.binder, e⟩ ∈ sites aliasAt? (d.text t) := by
  obtain ⟨c, e, hchain⟩ := (exists_chain_iff h t).2 hends
  have hread : aliasAt? (.between [] (d.text t)) = some (d.binder, e) := by
    rw [aliasAt?_text h, chain?_eq_some.2 hchain]
    rfl
  exact ⟨e, mem_sites_start (List.cons_ne_nil _ _) hread⟩

theorem ends_of_mem_sites {d : Continued} (h : d.WellFormed) {t : Text} {s : Site Head}
    (hs : s ∈ sites aliasAt? (d.text t)) (hstart : s.start = 0) : d.BreaksLine ∨ d.Extends t := by
  obtain ⟨a, b, hab, ha, hread⟩ := exists_cut_of_mem_sites hs
  obtain rfl : a = [] := List.eq_nil_of_length_eq_zero (ha.symm.trans hstart)
  obtain rfl : d.text t = b := hab
  rw [aliasAt?_text h] at hread
  obtain ⟨⟨c, e⟩, hchain, -⟩ := Option.map_eq_some_iff.1 hread
  exact (exists_chain_iff h t).1 ⟨c, e, chain?_eq_some.1 hchain⟩

theorem exists_lineEnd_of_aliasAt? {x : Char} {k : Nat} {t rest : Text} {found : Head}
    (h : aliasAt? ⟨some x, k, t⟩ = some (found, rest)) :
    ∃ c u, t = c :: u ∧ (c = '\n' ∨ c = '\r') := by
  cases t with
  | nil => cases h
  | cons c u =>
    have h : (if c = '\n' || c = '\r' then memberBinding? ⟨some x, k, c :: u⟩ (u.dropWhile isIndent)
      else none) = some (found, rest) := h
    split at h
    · next hc => exact ⟨c, u, rfl, by simpa using hc⟩
    · cases h

theorem lineEnd_not_mem_head {d : Continued} (h : d.WellFormed) {c : Char} (hc : c = '\n' ∨ c = '\r') :
    c ∉ d.head := by
  have hblank : isBlank c = true ∧ c ∉ "const ".toList ∧ c ∉ " = ".toList := by
    rcases hc with rfl | rfl <;> decide
  have hword : isDollarWord c = false := by
    cases hc : isDollarWord c with
    | false => rfl
    | true =>
      have hsolid := isBlank_of_isDollarWord hc
      rw [hblank.1] at hsolid
      cases hsolid
  have hchain : isChainChar c = false := by
    have hdot : c ≠ '.' := ne_of_blank hblank.1 (by decide)
    simp [isChainChar, hword, hdot]
  simp only [Continued.head_eq, List.mem_append, not_or]
  exact ⟨hblank.2.1, not_mem_of_isDollarName h.name hword, hblank.2.2,
    not_mem_of_all h.chain.all hchain⟩

/-- Every other alias begins with a line end, and no line ends before the end of the chain. -/
theorem start_of_mem_sites {d : Continued} (h : d.WellFormed) {t : Text} {s : Site Head}
    (hs : s ∈ sites aliasAt? (d.text t)) : s.start = 0 ∨ d.head.length ≤ s.start := by
  obtain ⟨a, b, hab, ha, hread⟩ := exists_cut_of_mem_sites hs
  rw [ha]
  cases hlast : a.getLast? with
  | none => exact .inl (by rw [List.getLast?_eq_none_iff.1 hlast, List.length_nil])
  | some x =>
    rw [Place.between, hlast] at hread
    obtain ⟨c, u, rfl, hc⟩ := exists_lineEnd_of_aliasAt? hread
    rcases List.append_eq_append_iff.1 hab with ⟨v, rfl, -⟩ | ⟨v, hv, hcut⟩
    · exact .inr (by rw [List.length_append]; exact Nat.le_add_right _ _)
    · cases v with
      | nil => exact .inr (Nat.le_of_eq (by rw [hv, List.append_nil]))
      | cons y v =>
        obtain ⟨rfl, -⟩ := List.cons.inj hcut
        exact absurd (hv ▸ List.mem_append_right a List.mem_cons_self) (lineEnd_not_mem_head h hc)

/-! ## Sources -/

theorem Continued.topLevelAt_name {d : Continued} (h : d.WellFormed) (t : Text) :
    topLevelAt (braceDepths (d.text t)) "const ".toList.length = true := by
  obtain ⟨c, n, hcons⟩ := List.exists_cons_of_ne_nil (all_isDollarWord h.name).1
  have hc : c ≠ '{' := by
    rintro rfl
    have hmem : '{' ∈ d.name := hcons ▸ List.mem_cons_self
    exact not_mem_of_isDollarName h.name (by decide +kernel) hmem
  have hwritten : d.text t =
      "const ".toList ++ c :: (n ++ (" = ".toList ++ d.chain) ++ d.tail t) := by
    simp only [Continued.text, Continued.head_eq, hcons, List.append_assoc, List.cons_append]
  rw [hwritten, topLevelAt_iff hc]
  rfl

/-- Of a constant whose expression goes on behind a chain of names, an alias is made when the line ends
    behind the chain, or when what follows makes it a longer chain with which the statement ends. In no
    other case does an alias begin before the end of the chain. -/
theorem alias_of_continued {d : Continued} (h : d.WellFormed) (rest : Text) :
    ((∃ s ∈ sites aliasAt? (CommentStyle.slashes.strip (d.text rest)), s.start < d.head.length) ↔
        d.BreaksLine ∨ d.Extends (CommentStyle.slashes.strip rest)) ∧
      (d.BreaksLine ∨ d.Extends (CommentStyle.slashes.strip rest) →
        { name := d.name } ∈ Language.typescript.extract (d.text rest)) := by
  have hstrip := Continued.strip_text h rest
  constructor
  · rw [hstrip]
    constructor
    · rintro ⟨s, hs, hstart⟩
      exact ends_of_mem_sites h hs ((start_of_mem_sites h hs).resolve_right (Nat.not_le.2 hstart))
    · intro hends
      obtain ⟨e, he⟩ := exists_mem_sites h hends
      exact ⟨_, he, Nat.zero_lt_succ _⟩
  · intro hends
    obtain ⟨e, he⟩ := exists_mem_sites h hends
    have hentry : aliasEntry ⟨0, d.binder, e⟩ ∈ entries (CommentStyle.slashes.strip (d.text rest)) := by
      rw [hstrip]
      unfold entries bindings
      refine List.mem_append_left _ (List.mem_append_right _ (List.mem_map_of_mem ?_))
      exact List.mem_filter.2 ⟨he, Continued.topLevelAt_name h _⟩
    have hclosed : Closed (aliasEntry ⟨0, d.binder, e⟩).list := ⟨[], rfl, rfl⟩
    have hfree : '@' ∉ (aliasEntry ⟨0, d.binder, e⟩).fragment := by
      have hname : '@' ∉ d.name := not_mem_of_isDollarName h.name (by decide +kernel)
      simp [aliasEntry, Entry.fragment, Continued.binder, hname]
    exact mem_extract_of_entry rfl hentry hclosed
      (signature_fragment (wellFormed_of_mem_entries hentry) hclosed (.of_not_mem hfree))

/-- A call on the line of the chain. -/
def lineCall : Continued where
  name := "value".toList
  chain := "config.items".toList
  gap := [' ']
  sign := '.'

/-- A call on the line after that of the chain. -/
def brokenCall : Continued where
  name := "value".toList
  chain := "config.items".toList
  gap := "\n  ".toList
  sign := '.'

theorem lineCall_wellFormed : lineCall.WellFormed := ⟨by decide, by decide, by decide, .inl rfl⟩

theorem brokenCall_wellFormed : brokenCall.WellFormed := ⟨by decide, by decide, by decide, .inl rfl⟩

theorem alias_of_continued_lineCall :
    ((∃ s ∈ sites aliasAt? (CommentStyle.slashes.strip (lineCall.text "map(fn);\n".toList)),
        s.start < lineCall.head.length) ↔
      lineCall.BreaksLine ∨ lineCall.Extends (CommentStyle.slashes.strip "map(fn);\n".toList)) ∧
    (brokenCall.BreaksLine ∧
      { name := brokenCall.name } ∈ Language.typescript.extract (brokenCall.text "map(fn);\n".toList)) :=
  ⟨(alias_of_continued lineCall_wellFormed _).1, .inl rfl,
    (alias_of_continued brokenCall_wellFormed _).2 (.inl (.inl rfl))⟩

/-- The value of a call in the next line counts as an alias. -/
theorem alias_of_brokenCall :
    brokenCall.WellFormed ∧ (sites aliasAt? (CommentStyle.slashes.strip
      (brokenCall.text "map(fn);\n".toList))).map (·.found.name) = [brokenCall.name] ∧
    Language.typescript.extract (brokenCall.text "map(fn);\n".toList) = [{ name := brokenCall.name }] :=
  ⟨brokenCall_wellFormed, by decide +kernel, by decide +kernel⟩

end Synopsis.Script
