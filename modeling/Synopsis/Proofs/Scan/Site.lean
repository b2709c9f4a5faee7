import Synopsis.Fragment
import Synopsis.Proofs.Text.Reader
import Synopsis.Scan.Site

/-!
# Where hits and fragments come from

Every hit of a search is what the reader found at the place between two parts of the text
(`exists_cut_of_mem_sites`), the search goes on behind it (`sitesFrom_of_read`), and a text in which
the reader finds nothing is left as it stands. A source yields exactly the trimmed texts of what was
located in it.
-/

namespace Synopsis

open Text

/-- The place between two parts of a text. -/
def Place.between (a b : Text) : Place := ⟨a.getLast?, a.length, b⟩

theorem Place.offsetOf_between (a s t : Text) : (between a (s ++ t)).offsetOf t = (a ++ s).length := by
  rw [offsetOf, between, List.length_append, List.length_append, Nat.add_sub_cancel]

section Sites

variable {α : Type} {read : Place → Option (α × Text)}

theorem exists_cut_of_mem_sitesFrom {n : Nat} {a t : Text} {s : Site α}
    (h : s ∈ sitesFrom read n a.getLast? a.length t) :
    ∃ b c, t = b ++ c ∧ s.start = a.length + b.length ∧
      read (.between (a ++ b) c) = some (s.found, s.rest) := by
  induction t generalizing n a with
  | nil => cases n <;> cases h
  | cons x t ih =>
    -- A hit further on was found with `x` among what precedes it, however many characters are skipped.
    have hnext {m : Nat} (h : s ∈ sitesFrom read m (some x) (a.length + 1) t) :
        ∃ b c, x :: t = b ++ c ∧ s.start = a.length + b.length ∧
          read (.between (a ++ b) c) = some (s.found, s.rest) := by
      obtain ⟨b, c, rfl, hstart, hread⟩ := ih (n := m) (a := a ++ [x]) (by simpa using h)
      refine ⟨x :: b, c, rfl, ?_, ?_⟩
      · rw [hstart, List.length_append, List.length_cons, List.length_cons, List.length_nil]
        omega
      · rwa [List.append_assoc, List.singleton_append] at hread
    cases n with
    | succ n => exact hnext h
    | zero =>
      rw [sitesFrom] at h
      split at h
      · next found rest hread =>
        rcases List.mem_cons.1 h with rfl | h
        · exact ⟨[], x :: t, rfl, rfl, by rwa [List.append_nil]⟩
        · exact hnext h
      · exact hnext h

/-- A hit is what the reader found at a place of the text. -/
theorem exists_cut_of_mem_sites {t : Text} {s : Site α} (h : s ∈ sites read t) :
    ∃ a b, t = a ++ b ∧ s.start = a.length ∧ read (.between a b) = some (s.found, s.rest) := by
  obtain ⟨a, b, ht, hstart, hread⟩ := exists_cut_of_mem_sitesFrom (a := []) h
  exact ⟨a, b, ht, by simpa using hstart, hread⟩

theorem exists_read_of_firstSite? {t : Text} {s : Site α} (h : firstSite? read t = some s) :
    ∃ p, read p = some (s.found, s.rest) := by
  obtain ⟨a, b, -, -, hread⟩ := exists_cut_of_mem_sites (List.mem_of_head? h)
  exact ⟨_, hread⟩

theorem firstSite?_eq_none {t : Text} (h : ∀ a b, t = a ++ b → read (.between a b) = none) :
    firstSite? read t = none := by
  rw [firstSite?, List.head?_eq_none_iff, List.eq_nil_iff_forall_not_mem]
  intro s hs
  obtain ⟨a, b, ht, -, hread⟩ := exists_cut_of_mem_sites hs
  rw [h a b ht] at hread
  cases hread

theorem sitesFrom_append {a b t : Text} (h : ∀ b₁ b₂, b₂ ≠ [] → b = b₁ ++ b₂ →
      read (.between (a ++ b₁) (b₂ ++ t)) = none) :
    sitesFrom read 0 a.getLast? a.length (b ++ t) =
      sitesFrom read 0 (a ++ b).getLast? (a ++ b).length t := by
  induction b generalizing a with
  | nil => rw [List.append_nil, List.nil_append]
  | cons x b ih =>
    have hx := h [] (x :: b) (List.cons_ne_nil x b) rfl
    rw [List.append_nil, Place.between, List.cons_append] at hx
    have hrest := ih (a := a ++ [x]) fun b₁ b₂ hne hb => by
      have := h (x :: b₁) b₂ hne (by rw [hb, List.cons_append])
      rwa [List.append_assoc, List.singleton_append]
    rw [List.append_assoc, List.singleton_append] at hrest
    rw [List.getLast?_concat, List.length_append] at hrest
    rw [List.cons_append, sitesFrom, hx]
    exact hrest

theorem sitesFrom_skip (s t : Text) (prev : Option Char) (k : Nat) :
    sitesFrom read s.length prev k (s ++ t) =
      sitesFrom read 0 (s.getLast?.or prev) (k + s.length) t := by
  induction s generalizing prev k with
  | nil => rfl
  | cons c s ih =>
    rw [List.length_cons, List.cons_append, sitesFrom, ih, List.getLast?_cons, Option.some_or,
      Nat.add_right_comm, Nat.add_assoc]
    cases s.getLast? <;> rfl

/-- What a reader finds does not hang on where the search starts, when the reader looks neither at
    offsets nor at the difference between the two characters before the text. -/
theorem map_found_sitesFrom {prev prev' : Option Char}
    (hoffset : ∀ p k k' t, read ⟨p, k, t⟩ = read ⟨p, k', t⟩)
    (hprev : ∀ k t, read ⟨prev, k, t⟩ = read ⟨prev', k, t⟩) (n k k' : Nat) (t : Text) :
    (sitesFrom read n prev k t).map (·.found) = (sitesFrom read n prev' k' t).map (·.found) := by
  induction t generalizing prev prev' n k k' with
  | nil => simp only [sitesFrom]
  | cons c t ih =>
    cases n with
    | succ n => exact ih (fun _ _ => rfl) n _ _
    | zero =>
      rw [sitesFrom, sitesFrom, hprev, hoffset prev' k k']
      cases read ⟨prev', k', c :: t⟩ with
      | none => exact ih (fun _ _ => rfl) 0 _ _
      | some hit => exact congrArg (hit.1 :: ·) (ih (fun _ _ => rfl) _ _ _)

/-- A reader that looks only at what follows has the same hits wherever the text stands. -/
theorem sitesFrom_shift (h : ∀ prev prev' k k' t, read ⟨prev, k, t⟩ = read ⟨prev', k', t⟩) (n : Nat)
    (prev prev' : Option Char) (k d : Nat) (t : Text) : sitesFrom read n prev (k + d) t =
      (sitesFrom read n prev' k t).map fun s => { s with start := s.start + d } := by
  induction t generalizing n prev prev' k with
  | nil => cases n <;> rfl
  | cons c t ih =>
    have hnext (m : Nat) := ih m (some c) (some c) (k + 1)
    rw [Nat.add_right_comm] at hnext
    cases n with
    | succ n => exact hnext n
    | zero =>
      rw [sitesFrom, sitesFrom, h prev prev' (k + d) k (c :: t)]
      cases read ⟨prev', k, c :: t⟩ with
      | none => exact hnext 0
      | some hit => exact congrArg (_ :: ·) (hnext _)

/-- The search goes on behind a hit. -/
theorem sitesFrom_of_read {prev : Option Char} {k : Nat} {s t : Text} {a : α}
    (hne : s ≠ []) (h : read ⟨prev, k, s ++ t⟩ = some (a, t)) :
    sitesFrom read 0 prev k (s ++ t) =
      ⟨k, a, t⟩ :: sitesFrom read 0 s.getLast? (k + s.length) t := by
  obtain ⟨c, s, rfl⟩ := List.exists_cons_of_ne_nil hne
  rw [List.cons_append] at h ⊢
  rw [sitesFrom, h]
  simp only [List.length_append, Nat.add_sub_cancel, sitesFrom_skip, List.length_cons]
  rw [List.getLast?_cons, Nat.add_right_comm, Nat.add_assoc]
  cases s.getLast? <;> rfl

/-- A reader that looks at the starts of lines only, and finds nothing where the search starts, finds
    nothing up to the next line. -/
theorem sitesFrom_line (hread : ∀ p : Place, p.isLineStart = false → read p = none) {s : Text}
    (hs : '\n' ∉ s) {prev : Option Char} {k : Nat} {t : Text}
    (hnone : read ⟨prev, k, s ++ '\n' :: t⟩ = none) :
    sitesFrom read 0 prev k (s ++ '\n' :: t) = sitesFrom read 0 (some '\n') (k + s.length + 1) t := by
  induction s generalizing prev k with
  | nil =>
    rw [List.nil_append] at hnone ⊢
    rw [sitesFrom, hnone]
    rfl
  | cons c s ih =>
    obtain ⟨hc, hs⟩ := not_or.1 (mt List.mem_cons.2 hs)
    have hnext := ih hs
      (hread ⟨some c, k + 1, s ++ '\n' :: t⟩ (by simp [Place.isLineStart, Ne.symm hc]))
    rw [List.cons_append] at hnone ⊢
    rw [sitesFrom, hnone, List.length_cons, Nat.add_comm s.length 1, ← Nat.add_assoc]
    exact hnext

/-- A search in a text is not changed by what follows the text, when no hit reaches its end and each
    place of it is read as before. -/
theorem sitesFrom_extend {s u : Text} {n : Nat} {prev : Option Char} {k : Nat}
    (hnone : ∀ p k t, t <:+ s → t ≠ [] → read ⟨p, k, t⟩ = none → read ⟨p, k, t ++ u⟩ = none)
    (hsome : ∀ p k t a r, t <:+ s → r ≠ [] → read ⟨p, k, t⟩ = some (a, r) →
      read ⟨p, k, t ++ u⟩ = some (a, r ++ u))
    (hn : n ≤ s.length) (hrest : ∀ x ∈ sitesFrom read n prev k s, x.rest ≠ []) :
    sitesFrom read n prev k (s ++ u) =
      (sitesFrom read n prev k s).map (fun x => { x with rest := x.rest ++ u }) ++
        sitesFrom read 0 (s.getLast?.or prev) (k + s.length) u := by
  induction s generalizing n prev k with
  | nil =>
    obtain rfl : n = 0 := Nat.le_zero.1 hn
    rfl
  | cons c s ih =>
    have hlast : (c :: s).getLast?.or prev = s.getLast?.or (some c) := by
      rw [List.getLast?_cons]
      cases s.getLast? <;> rfl
    have hsuffix {t : Text} (ht : t <:+ s) := ht.trans (List.suffix_cons c s)
    have hnext {m : Nat} (hm : m ≤ s.length)
        (hrest : ∀ x ∈ sitesFrom read m (some c) (k + 1) s, x.rest ≠ []) :=
      ih (fun p k t ht => hnone p k t (hsuffix ht)) (fun p k t a r ht => hsome p k t a r (hsuffix ht))
        hm hrest
    rw [hlast, List.length_cons, Nat.add_comm s.length 1, ← Nat.add_assoc]
    cases n with
    | succ n => exact hnext (Nat.le_of_succ_le_succ hn) hrest
    | zero =>
      rw [sitesFrom] at hrest ⊢
      cases hread : read ⟨prev, k, c :: s⟩ with
      | none =>
        rw [hread] at hrest
        have hlong := hnone prev k _ (List.suffix_refl _) (List.cons_ne_nil c s) hread
        rw [List.cons_append] at hlong ⊢
        rw [sitesFrom, hlong]
        exact hnext (Nat.zero_le _) hrest
      | some hit =>
        obtain ⟨a, r⟩ := hit
        rw [hread] at hrest
        have hr := hrest _ List.mem_cons_self
        have hlong := hsome prev k _ a r (List.suffix_refl _) hr hread
        rw [List.cons_append] at hlong ⊢
        rw [sitesFrom, hlong]
        simp only [List.length_append, Nat.add_sub_add_right]
        rw [hnext (Nat.sub_le _ _) fun x hx => hrest x (List.mem_cons_of_mem _ hx)]
        rfl

/-- The first hit is at the first place where the reader succeeds. -/
theorem firstSite?_append {a b rest : Text} {found : α} (hb : b ≠ [])
    (hnone : ∀ a₁ a₂, a₂ ≠ [] → a = a₁ ++ a₂ → read (.between a₁ (a₂ ++ b)) = none)
    (hread : read (.between a b) = some (found, rest)) :
    firstSite? read (a ++ b) = some ⟨a.length, found, rest⟩ := by
  have hskip := sitesFrom_append (a := []) (b := a) (t := b) hnone
  rw [List.nil_append] at hskip
  rw [firstSite?, sites, show sitesFrom read 0 none 0 (a ++ b) = _ from hskip]
  cases b with
  | nil => exact absurd rfl hb
  | cons x b =>
    rw [Place.between] at hread
    rw [sitesFrom, hread]
    rfl

/-! ### Hits in order -/

theorem le_start_of_mem_sitesFrom {n : Nat} {prev : Option Char} {k : Nat} {t : Text} {s : Site α}
    (h : s ∈ sitesFrom read n prev k t) : k + n ≤ s.start := by
  fun_induction sitesFrom read n prev k t with
  | case1 => cases h
  | case2 prev k n c t ih =>
    have := ih h
    omega
  | case3 prev k c t a rest hread ih =>
    rcases List.mem_cons.1 h with rfl | h
    · exact Nat.le_refl k
    · have := ih h
      omega
  | case4 prev k c t hread ih =>
    have := ih h
    omega

theorem start_lt_of_mem_sitesFrom {n : Nat} {prev : Option Char} {k : Nat} {t : Text} {s : Site α}
    (h : s ∈ sitesFrom read n prev k t) : s.start < k + t.length := by
  fun_induction sitesFrom read n prev k t with
  | case1 => cases h
  | case2 prev k n c t ih => grind
  | case3 prev k c t a rest hread ih =>
    rcases List.mem_cons.1 h with rfl | h
    · simp
    · grind
  | case4 prev k c t hread ih => grind

/-- A hit starts at a character of the text. -/
theorem start_lt_of_mem_sites {t : Text} {s : Site α} (h : s ∈ sites read t) : s.start < t.length := by
  simpa using start_lt_of_mem_sitesFrom h

/-- The hits of a search stand in order, each behind what the one before it took. -/
theorem pairwise_sitesFrom (n : Nat) (prev : Option Char) (k : Nat) (t : Text) :
    (sitesFrom read n prev k t).Pairwise fun s s' =>
      s.start < s'.start ∧ k + t.length - s.rest.length ≤ s'.start := by
  fun_induction sitesFrom read n prev k t with
  | case1 => exact .nil
  | case2 prev k n c t ih => rwa [List.length_cons, Nat.add_comm t.length 1, ← Nat.add_assoc]
  | case3 prev k c t a rest hread ih =>
    rw [List.length_cons, Nat.add_comm t.length 1, ← Nat.add_assoc]
    refine List.pairwise_cons.2 ⟨fun s hs => ?_, ih⟩
    have hstart := le_start_of_mem_sitesFrom hs
    show k < s.start ∧ k + 1 + t.length - rest.length ≤ s.start
    omega
  | case4 prev k c t hread ih => rwa [List.length_cons, Nat.add_comm t.length 1, ← Nat.add_assoc]

theorem pairwise_sites (t : Text) : (sites read t).Pairwise fun s s' =>
    s.start < s'.start ∧ t.length - s.rest.length ≤ s'.start := by
  have h : (sitesFrom read 0 none 0 t).Pairwise _ := pairwise_sitesFrom 0 none 0 t
  rwa [Nat.zero_add] at h

/-- Wherever the reader succeeds there is a hit, or an earlier hit reaches beyond the place. -/
theorem mem_sitesFrom_or {n : Nat} {a c b : Text} {x : α} {rest : Text} (hb : b ≠ [])
    (hread : read (.between (a ++ c) b) = some (x, rest)) (hn : n ≤ c.length) :
    ⟨(a ++ c).length, x, rest⟩ ∈ sitesFrom read n a.getLast? a.length (c ++ b) ∨
      ∃ s ∈ sitesFrom read n a.getLast? a.length (c ++ b),
        s.start < (a ++ c).length ∧ s.rest.length < b.length := by
  induction c generalizing n a with
  | nil =>
    obtain rfl : n = 0 := Nat.le_zero.1 hn
    obtain ⟨y, b, rfl⟩ := List.exists_cons_of_ne_nil hb
    rw [List.append_nil, Place.between] at hread
    rw [List.append_nil, List.nil_append, sitesFrom, hread]
    exact .inl List.mem_cons_self
  | cons z c ih =>
    have hnext {m : Nat} (hm : m ≤ c.length) := ih (n := m) (a := a ++ [z])
      (by rwa [List.append_assoc, List.singleton_append]) hm
    rw [List.append_assoc, List.singleton_append, List.getLast?_concat, List.length_append,
      List.length_singleton] at hnext
    cases n with
    | succ n => exact hnext (Nat.le_of_succ_le_succ hn)
    | zero =>
      rw [List.cons_append, sitesFrom]
      cases hhere : read ⟨a.getLast?, a.length, z :: (c ++ b)⟩ with
      | none => exact hnext (Nat.zero_le _)
      | some hit =>
        obtain ⟨y, r⟩ := hit
        by_cases hlong : r.length < b.length
        · exact .inr ⟨_, List.mem_cons_self, by simp, hlong⟩
        · have hskip : (c ++ b).length - r.length ≤ c.length := by
            rw [List.length_append]
            omega
          rcases hnext hskip with hmem | ⟨s, hs, hreach⟩
          · exact .inl (List.mem_cons_of_mem _ hmem)
          · exact .inr ⟨s, List.mem_cons_of_mem _ hs, hreach⟩

theorem mem_sites_or {a b : Text} {x : α} {rest : Text} (hb : b ≠ [])
    (hread : read (.between a b) = some (x, rest)) : ⟨a.length, x, rest⟩ ∈ sites read (a ++ b) ∨
      ∃ a' c found r, a = a' ++ c ∧ c ≠ [] ∧ ⟨a'.length, found, r⟩ ∈ sites read (a ++ b) ∧
        read (.between a' (c ++ b)) = some (found, r) ∧ r.length < b.length := by
  rcases mem_sitesFrom_or (a := []) (c := a) (n := 0) hb hread (Nat.zero_le _) with h | ⟨s, hs, hlt, hr⟩
  · exact .inl h
  · obtain ⟨a', b', hcut, hstart, hread'⟩ := exists_cut_of_mem_sites hs
    rw [List.nil_append, hstart] at hlt
    rcases List.append_eq_append_iff.1 hcut with ⟨c, rfl, -⟩ | ⟨c, rfl, rfl⟩
    · rw [List.length_append] at hlt
      omega
    · refine .inr ⟨a', c, s.found, s.rest, rfl, ?_, ?_, hread', hr⟩
      · rintro rfl
        simp at hlt
      · rw [← hstart]
        exact hs

/-- Where the reader succeeds at the start of a text there is a hit. -/
theorem mem_sites_start {t : Text} {x : α} {rest : Text} (ht : t ≠ [])
    (hread : read (.between [] t) = some (x, rest)) : ⟨0, x, rest⟩ ∈ sites read t := by
  rcases mem_sites_or (a := []) ht hread with hmem | ⟨a, c, -, -, hnil, hne, -⟩
  · exact hmem
  · exact absurd (List.append_eq_nil_iff.1 hnil.symm).2 hne

end Sites

/-! ## Replacing -/

/-- What is put in for the hits of a reader that looks only at what follows does not hang on where the
    text stands. -/
theorem replaceFrom_congr {read : Place → Option Text} (put : Text)
    (h : ∀ prev prev' k k' t, read ⟨prev, k, t⟩ = read ⟨prev', k', t⟩) (n : Nat)
    (prev prev' : Option Char) (k k' : Nat) (t : Text) :
    replaceFrom read put n prev k t = replaceFrom read put n prev' k' t := by
  induction t generalizing n prev prev' k k' with
  | nil => simp only [replaceFrom]
  | cons c t ih =>
    cases n with
    | succ n => exact ih n _ _ _ _
    | zero =>
      rw [replaceFrom, replaceFrom, h prev prev' k k' (c :: t)]
      cases read ⟨prev', k', c :: t⟩ with
      | none => exact congrArg (c :: ·) (ih 0 _ _ _ _)
      | some rest => exact congrArg (put ++ ·) (ih _ _ _ _ _)

theorem replaceFrom_skip (read : Place → Option Text) (put s t : Text) (prev : Option Char) (k : Nat) :
    replaceFrom read put s.length prev k (s ++ t) =
      replaceFrom read put 0 (s.getLast?.or prev) (k + s.length) t := by
  induction s generalizing prev k with
  | nil => rfl
  | cons c s ih =>
    rw [List.length_cons, List.cons_append, replaceFrom, ih, List.getLast?_cons, Option.some_or,
      Nat.add_right_comm, Nat.add_assoc]
    cases s.getLast? <;> rfl

theorem replaceFrom_of_read {read : Place → Option Text} (put : Text) {prev : Option Char} {k : Nat}
    {s t : Text} (hne : s ≠ []) (hread : read ⟨prev, k, s ++ t⟩ = some t) :
    replaceFrom read put 0 prev k (s ++ t) =
      put ++ replaceFrom read put 0 s.getLast? (k + s.length) t := by
  obtain ⟨c, s, rfl⟩ := List.exists_cons_of_ne_nil hne
  rw [List.cons_append] at hread
  rw [List.cons_append, replaceFrom, hread]
  simp only [List.length_append, Nat.add_sub_cancel, replaceFrom_skip, List.length_cons]
  rw [List.getLast?_cons, Nat.add_right_comm, Nat.add_assoc]
  cases s.getLast? <;> rfl

/-- A reader that looks only at what follows starts anew behind a hit. -/
theorem replaceAll_of_read {read : Place → Option Text} (put : Text)
    (h : ∀ prev prev' k k' t, read ⟨prev, k, t⟩ = read ⟨prev', k', t⟩) {s t : Text} (hne : s ≠ [])
    (hread : read ⟨none, 0, s ++ t⟩ = some t) :
    replaceAll read put (s ++ t) = put ++ replaceAll read put t := by
  rw [replaceAll, replaceFrom_of_read put hne hread]
  exact congrArg (put ++ ·) (replaceFrom_congr put h 0 _ _ _ _ t)

/-- Without a hit nothing is replaced. -/
theorem replaceFrom_eq_self {read : Place → Option Text} (put : Text) {prev : Option Char} {k : Nat}
    {t : Text} (h : ∀ a b, t = a ++ b → read ⟨a.getLast?.or prev, k + a.length, b⟩ = none) :
    replaceFrom read put 0 prev k t = t := by
  induction t generalizing prev k with
  | nil => rw [replaceFrom]
  | cons c t ih =>
    have hfirst : read ⟨prev, k, c :: t⟩ = none := h [] (c :: t) rfl
    have hrest : ∀ a b, t = a ++ b → read ⟨a.getLast?.or (some c), k + 1 + a.length, b⟩ = none := by
      rintro a b rfl
      have hnone := h (c :: a) b rfl
      rw [List.getLast?_cons, List.length_cons, Nat.add_comm a.length, ← Nat.add_assoc] at hnone
      cases hlast : a.getLast? with
      | none => rwa [hlast] at hnone
      | some x => rwa [hlast] at hnone
    rw [replaceFrom, hfirst]
    exact congrArg (c :: ·) (ih hrest)

theorem mem_of_mem_replaceFrom {read : Place → Option Text} {put t : Text} {n : Nat}
    {prev : Option Char} {k : Nat} {c : Char} (h : c ∈ replaceFrom read put n prev k t) :
    c ∈ put ∨ c ∈ t := by
  fun_induction replaceFrom read put n prev k t with
  | case1 => cases h
  | case2 prev k n x t ih => exact (ih h).imp_right (List.mem_cons_of_mem x)
  | case3 prev k x t rest hread ih =>
    rcases List.mem_append.1 h with h | h
    · exact .inl h
    · exact (ih h).imp_right (List.mem_cons_of_mem x)
  | case4 prev k x t hread ih =>
    rcases List.mem_cons.1 h with rfl | h
    · exact .inr List.mem_cons_self
    · exact (ih h).imp_right (List.mem_cons_of_mem x)

/-! ## Breaking -/

theorem breakFrom_append {read : Place → Option Text} {a s t : Text}
    (h : ∀ s₁ s₂, s₂ ≠ [] → s = s₁ ++ s₂ → read (.between (a ++ s₁) (s₂ ++ t)) = none) :
    breakFrom read a.getLast? a.length (s ++ t) =
      (breakFrom read (a ++ s).getLast? (a ++ s).length t).map fun cut => (s ++ cut.1, cut.2) := by
  induction s generalizing a with
  | nil =>
    rw [List.append_nil]
    exact Option.map_id_apply.symm
  | cons x s ih =>
    have hx := h [] (x :: s) (List.cons_ne_nil x s) rfl
    rw [List.append_nil, Place.between, List.cons_append] at hx
    have hrest := ih (a := a ++ [x]) fun s₁ s₂ hne hs => by
      have hnone := h (x :: s₁) s₂ hne (by rw [hs, List.cons_append])
      rwa [List.append_assoc, List.singleton_append]
    rw [List.append_assoc, List.singleton_append, List.getLast?_concat, List.length_append] at hrest
    rw [List.cons_append, breakFrom, hx]
    show Option.map (keep x) _ = _
    rw [show a.length + 1 = a.length + [x].length from rfl, hrest, Option.map_map]
    rfl

/-- The break is at the first place where the reader succeeds. -/
theorem breakAt?_append {read : Place → Option Text} {s t rest : Text} (ht : t ≠ [])
    (hnone : ∀ s₁ s₂, s₂ ≠ [] → s = s₁ ++ s₂ → read (.between s₁ (s₂ ++ t)) = none)
    (hread : read (.between s t) = some rest) : breakAt? read (s ++ t) = some (s, rest) := by
  have hskip := breakFrom_append (a := []) (s := s) (t := t) hnone
  obtain ⟨c, t, rfl⟩ := List.exists_cons_of_ne_nil ht
  rw [List.nil_append] at hskip
  rw [Place.between] at hread
  rw [breakAt?, show breakFrom read none 0 (s ++ c :: t) = _ from hskip, breakFrom, hread]
  simp

theorem breakAt?_eq_none {read : Place → Option Text} {t : Text}
    (h : ∀ a b, t = a ++ b → read (.between a b) = none) : breakAt? read t = none := by
  have hnone : ∀ a b, b ≠ [] → t = a ++ b → read (.between ([] ++ a) (b ++ [])) = none := by
    intro a b _ ht
    rw [List.append_nil]
    exact h a b ht
  have hskip := breakFrom_append hnone
  rw [List.nil_append, List.append_nil] at hskip
  rw [breakAt?, show breakFrom read none 0 t = _ from hskip]
  rfl

/-! ## Fragments -/

theorem mem_distinct {fs : List Text} {f : Text} :
    f ∈ distinct fs ↔ f ≠ [] ∧ ∃ g ∈ fs, trim g = f := by
  rw [distinct, List.mem_eraseDups, List.mem_filter, List.mem_map, And.comm]
  simp

theorem mem_distinct_map {α : Type} {located : List α} {write : α → Text}
    (h : ∀ e ∈ located, write e ≠ [] ∧ trim (write e) = write e) {f : Text} :
    f ∈ distinct (located.map write) ↔ ∃ e ∈ located, f = write e := by
  rw [mem_distinct]
  constructor
  · rintro ⟨-, g, hg, rfl⟩
    obtain ⟨e, he, rfl⟩ := List.mem_map.1 hg
    exact ⟨e, he, (h e he).2⟩
  · rintro ⟨e, he, rfl⟩
    exact ⟨(h e he).1, write e, List.mem_map_of_mem he, (h e he).2⟩

end Synopsis
