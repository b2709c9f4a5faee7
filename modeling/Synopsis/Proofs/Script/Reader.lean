import Synopsis.Language.ScriptMethod
import Synopsis.Proofs.Text.Reader

/-!
# TypeScript and JavaScript: when the readers answer

A reader of heads is a row of smaller readers. It answers exactly when each of them does, and its head
is put together from what they took (`functionAt?_eq_some_iff`, `constant?_eq_some_iff`,
`methodName?_eq_some_iff`). What a name is made of, where it stands and how much of the text is left are
read off these equivalences, not off the definitions.
-/

namespace Synopsis.Script

open Text

variable {p : Place} {head : Head} {lead rest t : Text} {s : Site Head} {e : Entry}

/-! ## Functions and constants -/

theorem functionAt?_eq_some_iff : functionAt? p = some (head, rest) ↔
    ∃ lead t name u, lineLead? p = some lead ∧
      afterFunction? (flag "async" (skipKeyword ["default"] (flag "export" lead).2)).2 = some t ∧
      dollarName? t = some (name, u) ∧ char? '(' (trimStart (typeParameters u).2) = some rest ∧
      head = {
        isExported := (flag "export" lead).1
        isAsync := (flag "async" (skipKeyword ["default"] (flag "export" lead).2)).1
        name
        nameOffset := p.offsetOf t
        generics := (typeParameters u).1 } := by
  unfold functionAt?
  constructor
  · intro h
    obtain ⟨lead, hlead, h⟩ := Option.bind_eq_some_iff.1 h
    obtain ⟨t, ht, h⟩ := Option.bind_eq_some_iff.1 h
    obtain ⟨⟨name, u⟩, hname, h⟩ := Option.bind_eq_some_iff.1 h
    obtain ⟨v, hparen, h⟩ := Option.bind_eq_some_iff.1 h
    obtain ⟨rfl, rfl⟩ := Prod.mk.inj (Option.some.inj h)
    exact ⟨lead, t, name, u, hlead, ht, hname, hparen, rfl⟩
  · rintro ⟨lead, t, name, u, hlead, ht, hname, hparen, rfl⟩
    simp only [hlead, ht, hname, hparen, Option.bind_eq_bind, Option.bind_some]
    rfl

theorem constant?_eq_some_iff : constant? p lead = some (head, rest) ↔
    ∃ t name, keyword? "const" (flag "export" lead).2 = some t ∧ dollarName? t = some (name, rest) ∧
      head = { isExported := (flag "export" lead).1, name, nameOffset := p.offsetOf t } := by
  unfold constant?
  constructor
  · intro h
    obtain ⟨t, hconst, h⟩ := Option.bind_eq_some_iff.1 h
    obtain ⟨⟨name, u⟩, hname, h⟩ := Option.bind_eq_some_iff.1 h
    obtain ⟨rfl, rfl⟩ := Prod.mk.inj (Option.some.inj h)
    exact ⟨t, name, hconst, hname, rfl⟩
  · rintro ⟨t, name, hconst, hname, rfl⟩
    simp only [hconst, hname, Option.bind_eq_bind, Option.bind_some]
    rfl

theorem arrowAt?_eq_some_iff : arrowAt? p = some (head, rest) ↔
    ∃ lead constant t u, lineLead? p = some lead ∧ constant? p lead = some (constant, t) ∧
      char? '=' (skipType (trimStart t)) = some u ∧
      char? '(' (flag "async" (trimStart u)).2 = some rest ∧
      head = { constant with isAsync := (flag "async" (trimStart u)).1 } := by
  unfold arrowAt?
  constructor
  · intro h
    obtain ⟨lead, hlead, h⟩ := Option.bind_eq_some_iff.1 h
    obtain ⟨⟨constant, t⟩, hconstant, h⟩ := Option.bind_eq_some_iff.1 h
    obtain ⟨u, hequals, h⟩ := Option.bind_eq_some_iff.1 h
    obtain ⟨v, hparen, h⟩ := Option.bind_eq_some_iff.1 h
    obtain ⟨rfl, rfl⟩ := Prod.mk.inj (Option.some.inj h)
    exact ⟨lead, constant, t, u, hlead, hconstant, hequals, hparen, rfl⟩
  · rintro ⟨lead, constant, t, u, hlead, hconstant, hequals, hparen, rfl⟩
    simp only [hlead, hconstant, hequals, hparen, Option.bind_eq_bind, Option.bind_some]
    rfl

theorem forwardRefAt?_eq_some_iff : forwardRefAt? p = some (head, rest) ↔
    ∃ lead t u v, lineLead? p = some lead ∧ constant? p lead = some (head, t) ∧
      char? '=' (trimStart t) = some u ∧
      after? "forwardRef".toList ((after? "React.".toList (trimStart u)).getD (trimStart u)) = some v ∧
      rest = trimStart v := by
  unfold forwardRefAt?
  constructor
  · intro h
    obtain ⟨lead, hlead, h⟩ := Option.bind_eq_some_iff.1 h
    obtain ⟨⟨constant, t⟩, hconstant, h⟩ := Option.bind_eq_some_iff.1 h
    obtain ⟨u, hequals, h⟩ := Option.bind_eq_some_iff.1 h
    obtain ⟨v, hcall, h⟩ := Option.bind_eq_some_iff.1 h
    obtain ⟨rfl, rfl⟩ := Prod.mk.inj (Option.some.inj h)
    exact ⟨lead, t, u, v, hlead, hconstant, hequals, hcall, rfl⟩
  · rintro ⟨lead, t, u, v, hlead, hconstant, hequals, hcall, rfl⟩
    simp only [hlead, hconstant, hequals, hcall, Option.bind_eq_bind, Option.bind_some]
    rfl

/-- A renaming is a constant bound to names joined by dots. -/
theorem exists_of_memberBinding? (h : memberBinding? p lead = some (head, rest)) :
    ∃ t u chain, constant? p lead = some (head, t) ∧ char? '=' (trimStart t) = some u ∧
      run? (fun c => isDollarWord c || c == '.') (trimStart u) = some (chain, rest) := by
  unfold memberBinding? at h
  obtain ⟨⟨constant, t⟩, hconstant, h⟩ := Option.bind_eq_some_iff.1 h
  obtain ⟨u, hequals, h⟩ := Option.bind_eq_some_iff.1 h
  obtain ⟨⟨chain, v⟩, hchain, h⟩ := Option.bind_eq_some_iff.1 h
  dsimp only at h
  split at h
  · obtain ⟨rfl, rfl⟩ := Prod.mk.inj (Option.some.inj h)
    exact ⟨t, u, chain, hconstant, hequals, hchain⟩
  · cases h

/-- A renaming stands at the start of the text or behind a line end. -/
theorem exists_of_aliasAt? (h : aliasAt? p = some (head, rest)) :
    ∃ lead, lead <:+ p.rest ∧ memberBinding? p lead = some (head, rest) := by
  unfold aliasAt? at h
  rcases Option.or_eq_some_iff.1 h with h | ⟨-, h⟩
  · split at h
    · exact ⟨_, List.dropWhile_suffix _, h⟩
    · cases h
  · split at h
    · next c cs hrest =>
      split at h
      · refine ⟨_, ?_, h⟩
        rw [hrest]
        exact (List.dropWhile_suffix _).trans (List.suffix_cons c cs)
      · cases h
    · cases h

/-! ## Methods -/

/-- The sign of a private name stands before it and belongs to it. -/
theorem methodName?_eq_some_iff {isAsync : Bool} : methodName? p isAsync t = some (head, rest) ↔
    ∃ sign r name u, (sign = ['#'] ∧ char? '#' t = some r ∨ sign = [] ∧ char? '#' t = none ∧ r = t) ∧
      dollarName? r = some (name, u) ∧
      char? '(' (trimStart ((char? '?' (typeParameters u).2).getD (typeParameters u).2)) = some rest ∧
      head = { isAsync, name := sign ++ name, nameOffset := p.offsetOf t,
               generics := (typeParameters u).1 } := by
  unfold methodName?
  constructor
  · intro h
    obtain ⟨⟨name, u⟩, hname, h⟩ := Option.bind_eq_some_iff.1 h
    obtain ⟨v, hparen, h⟩ := Option.bind_eq_some_iff.1 h
    obtain ⟨rfl, rfl⟩ := Prod.mk.inj (Option.some.inj h)
    cases hsign : char? '#' t with
    | none =>
      rw [hsign] at hname
      exact ⟨[], t, name, u, .inr ⟨rfl, rfl, rfl⟩, hname, hparen, rfl⟩
    | some r =>
      rw [hsign] at hname
      exact ⟨['#'], r, name, u, .inl ⟨rfl, rfl⟩, hname, hparen, rfl⟩
  · rintro ⟨sign, r, name, u, ⟨rfl, hsign⟩ | ⟨rfl, hsign, rfl⟩, hname, hparen, rfl⟩
    all_goals
      simp only [hsign, hname, hparen, Option.bind_eq_bind, Option.bind_some]
      rfl

/-- A method stands at the start of the text, behind a line end or behind a semicolon. -/
theorem exists_of_methodAt? (h : methodAt? p = some (head, rest)) :
    ∃ t, t <:+ p.rest ∧ decoratedName? p t = some (head, rest) := by
  unfold methodAt? at h
  rcases Option.or_eq_some_iff.1 h with h | ⟨-, h⟩
  · split at h
    · exact ⟨_, suffix_trimStart _, h⟩
    · cases h
  · split at h
    · next c cs hrest =>
      split at h
      · refine ⟨_, ?_, h⟩
        rw [hrest]
        exact (suffix_trimStart _).trans (List.suffix_cons c cs)
      · cases h
    · cases h

/-! ## Arrows -/

/-- An annotation between a colon and an arrow is read up to a character that stops it. -/
theorem exists_of_arrowType? {stops : Char → Bool} {r : Text} (h : arrowType? stops t = some r) :
    ∃ u, r = trim ((trimStart u).takeWhile (!stops ·)) := by
  unfold arrowType? at h
  obtain ⟨u, -, h⟩ := Option.bind_eq_some_iff.1 h
  obtain ⟨v, -, h⟩ := Option.bind_eq_some_iff.1 h
  split at h
  · exact ⟨u, (Option.some.inj h).symm⟩
  · cases h

theorem arrowEntry?_eq_some_iff : arrowEntry? s = some e ↔
    ∃ returns, arrowTail? (parens ('(' :: s.rest)).2 = some returns ∧
      e = .arrow s.found.isExported s.found.isAsync s.found.name (parens ('(' :: s.rest)).1
        (nonempty? returns) := by
  unfold arrowEntry?
  constructor
  · intro h
    obtain ⟨returns, hreturns, h⟩ := Option.bind_eq_some_iff.1 h
    exact ⟨returns, hreturns, (Option.some.inj h).symm⟩
  · rintro ⟨returns, hreturns, rfl⟩
    exact Option.bind_eq_some_iff.2 ⟨returns, hreturns, rfl⟩

theorem componentEntry?_eq_some_iff : componentEntry? s = some e ↔
    ∃ t, t = (unwrap (parens (trimStart (balanced '<' '>' s.rest).2)).1).dropWhile (· ≠ '(') ∧
      (parens t).1 ≠ [] ∧
      e = .arrow false false s.found.name (parens t).1 (nonempty? (componentTail (parens t).2)) := by
  unfold componentEntry?
  constructor
  · intro h
    dsimp only at h
    split at h
    · cases h
    · next hne => exact ⟨_, rfl, fun hnil => hne (List.isEmpty_iff.2 hnil), (Option.some.inj h).symm⟩
  · rintro ⟨t, rfl, hne, rfl⟩
    exact if_neg fun hnil => hne (List.isEmpty_iff.1 hnil)

end Synopsis.Script
