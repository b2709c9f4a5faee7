import Synopsis.Proofs.Text.Reader

/-!
# Words in a text

A reader that looks for a word tries every place with no word character before it, and asks something of the
character behind the word: that it is no word character, or that it is a blank. Where such a word stands in a
text is told by one fact: behind a character that belongs to no word a text falls into two, and a word stands
in one of them (`Stands.of_append`). A text of word characters only is the word itself or does not have it
(`HasWord.eq_of_all`).
-/

namespace Synopsis.Text

/-- A word stands in a text: no word character precedes it, and the character behind it is as asked. -/
def Stands (next : Option Char → Bool) (word : String) (t : Text) : Prop :=
  ∃ a b, t = a ++ (word.toList ++ b) ∧ notAfter isWord a.getLast? = true ∧ next b.head? = true

/-- A word stands in a text where it goes on neither before nor behind it. -/
def HasWord (word : String) (t : Text) : Prop := Stands (fun c => !c.any isWord) word t

/-- A word stands in a text and a blank follows it. -/
def HasKeyword (word : String) (t : Text) : Prop := Stands (·.any isBlank) word t

theorem stands_iff {next : Option Char → Bool} {word : String} {t : Text} : Stands next word t ↔
    ∃ k ∈ List.range (t.length + 1), notAfter isWord (t.take k).getLast? = true ∧
      (after? word.toList (t.drop k)).any (next ·.head?) = true := by
  constructor
  · rintro ⟨a, b, rfl, ha, hb⟩
    refine ⟨a.length, List.mem_range.2 (by simp only [List.length_append]; omega), ?_, ?_⟩
    · rwa [List.take_left]
    · rwa [List.drop_left, after?_append, Option.any_some]
  · rintro ⟨k, -, ha, hword⟩
    obtain ⟨b, hafter, hb⟩ := (Option.any_eq_true _ _).1 hword
    refine ⟨t.take k, b, ?_, ha, hb⟩
    rw [← after?_eq_some.1 hafter, List.take_append_drop]

instance (next : Option Char → Bool) (word : String) (t : Text) : Decidable (Stands next word t) :=
  decidable_of_iff _ stands_iff.symm

instance (word : String) (t : Text) : Decidable (HasWord word t) :=
  inferInstanceAs (Decidable (Stands _ word t))

instance (word : String) (t : Text) : Decidable (HasKeyword word t) :=
  inferInstanceAs (Decidable (Stands _ word t))

section Stands

variable {next : Option Char → Bool} {word : String} {c : Char} {a s t rest : Text}

/-- No word goes on behind a blank. -/
theorem HasKeyword.hasWord (h : HasKeyword word t) : HasWord word t := by
  obtain ⟨a, b, ht, ha, hb⟩ := h
  refine ⟨a, b, ht, ha, ?_⟩
  cases hhead : b.head? with
  | none => rfl
  | some x =>
    have hx : isBlank x = true := by simpa [hhead] using hb
    simp [isWord_of_blank hx]

theorem Stands.append_left (h : Stands next word t) (hs : notAfter isWord s.getLast? = true) :
    Stands next word (s ++ t) := by
  obtain ⟨a, b, rfl, ha, hb⟩ := h
  refine ⟨s ++ a, b, by rw [List.append_assoc], ?_, hb⟩
  rw [List.getLast?_append]
  cases hlast : a.getLast? with
  | none => exact hs
  | some x => rwa [hlast] at ha

theorem notAfter_getLast?_of_blank {g : Text} (hg : blank g = true) : notAfter isWord g.getLast? = true := by
  cases hlast : g.getLast? with
  | none => rfl
  | some x =>
    have hx : isBlank x = true := List.all_eq_true.1 hg x (List.mem_of_getLast? hlast)
    simp [notAfter, isWord_of_blank hx]

/-! ## Cutting a text -/

section Cut

variable (hword : IsWordRun word.toList)
include hword

/-- A text falls into two where no word goes on, and a word stands in one of the halves. -/
theorem Stands.of_append (hs : notAfter isWord s.getLast? = true) (h : Stands next word (s ++ t)) :
    Stands next word s ∨ Stands next word t := by
  -- No part of the word is an end of the first half.
  have hend {u : Text} (hu : u.all isWord = true) (hsuffix : u <:+ s) : u = [] := by
    cases hlast : u.getLast? with
    | none => exact List.getLast?_eq_none_iff.1 hlast
    | some x =>
      have hx : isWord x = true := List.all_eq_true.1 hu x (List.mem_of_getLast? hlast)
      have hne : u ≠ [] := by rintro rfl; cases hlast
      rw [← getLast?_of_suffix hsuffix hne, hlast, notAfter, Option.any_some, hx] at hs
      cases hs
  obtain ⟨a, b, heq, ha, hb⟩ := h
  rcases List.append_eq_append_iff.1 heq with ⟨a', rfl, rfl⟩ | ⟨s', rfl, hrest⟩
  · refine .inr ⟨a', b, rfl, ?_, hb⟩
    rw [List.getLast?_append] at ha
    cases hlast : a'.getLast? with
    | none => rfl
    | some y => rwa [hlast] at ha
  · rcases List.append_eq_append_iff.1 hrest with ⟨u, rfl, rfl⟩ | ⟨u, hu, rfl⟩
    · cases u with
      | nil => exact absurd (hend hword.2 ⟨a, by rw [List.append_nil]⟩) hword.1
      | cons x u => exact .inl ⟨a, x :: u, rfl, ha, hb⟩
    · have hall : s'.all isWord = true := by
        have hall := hword.2
        rw [hu, List.all_append, Bool.and_eq_true] at hall
        exact hall.1
      obtain rfl : s' = [] := hend hall (List.suffix_append a s')
      exact .inr ⟨[], b, by rw [hu]; rfl, rfl, hb⟩

theorem not_stands_of_blank {g : Text} (hg : blank g = true) : ¬ Stands next word g := by
  rintro ⟨a, b, rfl, -, -⟩
  obtain ⟨x, hx, hisWord⟩ := hword.head?
  have hblank : isBlank x = true := List.all_eq_true.1 hg x
    (List.mem_append_right a (List.mem_append_left b (List.mem_of_mem_head? hx)))
  rw [isWord_of_blank hblank] at hisWord
  cases hisWord

/-- Blanks before a text change nothing. -/
theorem stands_blank_append {g : Text} (hg : blank g = true) : Stands next word (g ++ t) ↔ Stands next word t := by
  constructor
  · intro h
    exact (h.of_append hword (notAfter_getLast?_of_blank hg)).resolve_left (not_stands_of_blank hword hg)
  · intro h
    exact h.append_left (notAfter_getLast?_of_blank hg)

variable (hc : isWord c = false)
include hc

theorem Stands.of_append_cons (h : Stands next word (s ++ c :: t)) :
    Stands next word (s ++ [c]) ∨ Stands next word t := by
  rw [List.append_cons] at h
  exact h.of_append hword (by simp [notAfter, hc])

theorem Stands.of_concat (hnext : next (some c) = true → next none = true)
    (h : Stands next word (s ++ [c])) : Stands next word s := by
  have hmem : c ∉ word.toList := not_mem_of_all hword.2 hc
  obtain ⟨a, b, heq, ha, hb⟩ := h
  cases hlast : b.getLast? with
  | none =>
    -- The word would end in the character.
    obtain rfl := List.getLast?_eq_none_iff.1 hlast
    have hend : (a ++ word.toList).getLast? = some c := by
      rw [List.append_nil] at heq
      rw [← heq, List.getLast?_concat]
    rw [← getLast?_of_suffix (List.suffix_append a word.toList) hword.1] at hend
    exact absurd (List.mem_of_getLast? hend) hmem
  | some x =>
    obtain ⟨b', rfl⟩ := List.getLast?_eq_some_iff.1 hlast
    rw [← List.append_assoc, ← List.append_assoc] at heq
    obtain ⟨rfl, hx⟩ := List.append_inj' heq rfl
    obtain rfl : c = x := List.singleton_inj.1 hx
    refine ⟨a, b', List.append_assoc .., ha, ?_⟩
    cases b' with
    | nil => exact hnext hb
    | cons y b' => exact hb

theorem HasWord.of_append_cons (h : HasWord word (s ++ c :: t)) : HasWord word s ∨ HasWord word t :=
  (Stands.of_append_cons hword hc h).imp_left (.of_concat hword hc fun _ => rfl)

theorem HasKeyword.of_append_cons (hblank : isBlank c = false) (h : HasKeyword word (s ++ c :: t)) :
    HasKeyword word s ∨ HasKeyword word t :=
  (Stands.of_append_cons hword hc h).imp_left
    (.of_concat hword hc fun hnext => absurd hnext (by simp [hblank]))

end Cut

/-- A text of word characters that has a word is that word. -/
theorem HasWord.eq_of_all (h : HasWord word t) (ht : t.all isWord = true) : t = word.toList := by
  obtain ⟨a, b, rfl, ha, hb⟩ := h
  obtain ⟨hall, hword⟩ : a.all isWord = true ∧ word.toList.all isWord = true ∧ b.all isWord = true := by
    simpa using ht
  have hnil : a = [] := by
    cases hlast : a.getLast? with
    | none => exact List.getLast?_eq_none_iff.1 hlast
    | some x =>
      rw [hlast, notAfter, Option.any_some, List.all_eq_true.1 hall x (List.mem_of_getLast? hlast)] at ha
      cases ha
  have hnil' : b = [] := by
    cases b with
    | nil => rfl
    | cons x b =>
      have hx : isWord x = true := (Bool.and_eq_true_iff.1 hword.2).1
      simp [hx] at hb
  rw [hnil, hnil', List.append_nil, List.nil_append]

/-! ## Reading a word -/

theorem exists_after?_of_keyword? (h : keyword? word t = some rest) :
    ∃ r, after? word.toList t = some r ∧ r.head?.any isBlank = true := by
  obtain ⟨g, hne, hg, ht⟩ := eq_append_of_keyword? h
  refine ⟨g ++ rest, after?_eq_some.2 ht, ?_⟩
  obtain ⟨x, g, rfl⟩ := List.exists_cons_of_ne_nil hne
  exact (Bool.and_eq_true_iff.1 hg).1

theorem stands_of_after? {r : Text} (ha : notAfter isWord a.getLast? = true)
    (h : after? word.toList t = some r) (hnext : next r.head? = true) : Stands next word (a ++ t) :=
  ⟨a, r, by rw [after?_eq_some.1 h], ha, hnext⟩

/-- A word that is read in front of a text does not go into it, behind a character that belongs to no word. -/
theorem stands_of_after?_append (hword : IsWordRun word.toList) (hlast : s.getLast? = some c)
    (hc : isWord c = false) {r : Text} (ha : notAfter isWord a.getLast? = true)
    (h : after? word.toList (s ++ t) = some r) (hnext : next r.head? = true) :
    Stands next word (a ++ s) := by
  have hmem : c ∉ word.toList := not_mem_of_all hword.2 hc
  rw [after?_append_of_getLast? hlast hmem] at h
  obtain ⟨r', hr', rfl⟩ := Option.map_eq_some_iff.1 h
  refine stands_of_after? ha hr' ?_
  cases r' with
  | nil =>
    rw [after?_eq_some.1 hr', List.append_nil] at hlast
    exact absurd (List.mem_of_getLast? hlast) hmem
  | cons x r' => exact hnext

end Stands

end Synopsis.Text
