import Synopsis.Proofs.Nesting.Balanced
import Synopsis.Proofs.Nesting.Depth

/-!
# Depths inside a block

The members of a block are found in its body with a depth table of its own, which starts at zero. The table
of the whole text has the same depths there, raised by the depth of the opening brace
(`braceDepths_block`), so a member is at the top of its body exactly where the text is as deep as the
opening brace (`braceDepths_body`). The clamp at zero acts on stray closers in front of the block; inside,
the span keeps at least one brace open, so it never acts there (`braceDepthsFrom_add`).
-/

namespace Synopsis

open Text

/-- Where the depth never falls below its start, the table of a text that starts deeper is raised. -/
theorem braceDepthsFrom_add {d e : Nat} {s : Text}
    (h : depthAfter '{' '}' (d + 1) s = some e) (k : Nat) :
    braceDepthsFrom (k + d) s = (braceDepthsFrom d s).map (k + ·) := by
  induction s generalizing d with
  | nil => rfl
  | cons x s ih =>
    rw [depthAfter] at h
    rw [braceDepthsFrom, braceDepthsFrom]
    split at h
    · next hopen =>
      rw [if_pos hopen, if_pos hopen, List.map_cons, ← ih h]
      rfl
    · next hopen =>
      rw [if_neg hopen, if_neg hopen]
      split at h
      · next hclose =>
        split at h
        · cases h
        · next hd =>
          -- the span stays open, so this closer answers a brace of the text itself
          obtain ⟨d, rfl⟩ : ∃ d', d = d' + 1 := ⟨d - 1, by omega⟩
          rw [if_pos hclose, if_pos hclose, List.map_cons, Nat.add_sub_cancel, ← ih h]
          rfl
      · next hclose => rw [if_neg hclose, if_neg hclose, List.map_cons, ← ih h]

/-- The table of a text with a block: the opening brace reports the depth it opens, and what stands behind
    it starts that deep. -/
theorem braceDepths_block (front rest : Text) :
    braceDepths (front ++ '{' :: rest) = braceDepths front ++
      (bracesOpenAfter 0 front + 1) :: braceDepthsFrom (bracesOpenAfter 0 front + 1) rest := by
  rw [braceDepths, braceDepthsFrom_split, braceDepthsFrom, if_pos rfl]
  rfl

/-- Along the body of a block the table is that of the body, raised by the depth of the block. -/
theorem getElem?_braceDepthsFrom_body {body : Text} {e : Nat}
    (h : depthAfter '{' '}' 1 body = some e) (depth : Nat) (rest : Text) {k : Nat}
    (hk : k < body.length) :
    ∃ inner, (braceDepths body)[k]? = some inner ∧
      (braceDepthsFrom depth (body ++ rest))[k]? = some (depth + inner) := by
  have hlength : k < (braceDepths body).length := by rwa [braceDepths, length_braceDepthsFrom]
  refine ⟨(braceDepths body)[k], List.getElem?_eq_getElem hlength, ?_⟩
  have hraised : braceDepthsFrom depth body = (braceDepths body).map (depth + ·) :=
    braceDepthsFrom_add h depth
  rw [braceDepthsFrom_split, hraised, List.getElem?_append_left (by rwa [List.length_map]),
    List.getElem?_map, List.getElem?_eq_getElem hlength, Option.map_some]

/-- The depths of the body of a block, closed or not, are those of the text there less the depth that the
    opening brace reports, and a place is at the top of the body where the text is just as deep. -/
theorem braceDepths_body {t : Text} {start : Nat} (h : t[start]? = some '{') :
    ∃ block stop outer, balancedAt ['{'] ['}'] t start = .ok (block, stop) ∧
      (braceDepths t)[start]? = some outer ∧
      ∀ k < (unwrap block).length, ∃ inner, (braceDepths (unwrap block))[k]? = some inner ∧
        (braceDepths t)[start + 1 + k]? = some (outer + inner) ∧
        (topLevelAt (braceDepths (unwrap block)) k = true ↔
          (braceDepths t)[start + 1 + k]? = some outer) := by
  obtain ⟨z, hz⟩ := exists_drop_of_getElem? h
  have htable := braceDepths_block (t.take start) z
  rw [← hz, List.take_append_drop] at htable
  have hfront : (braceDepths (t.take start)).length = start := by
    obtain ⟨hlt, -⟩ := List.getElem?_eq_some_iff.1 h
    rw [braceDepths, length_braceDepthsFrom, List.length_take, Nat.min_eq_left (Nat.le_of_lt hlt)]
  refine ⟨(balanced '{' '}' ('{' :: z)).1, _, bracesOpenAfter 0 (t.take start) + 1,
    balancedAt_of_balanced (by rw [hz]), ?_, fun k hk => ?_⟩
  · rw [htable, List.getElem?_append_right (Nat.le_of_eq hfront), hfront, Nat.sub_self]
    rfl
  · have hne : unwrap (balanced '{' '}' ('{' :: z)).1 ≠ [] := List.length_pos_iff.1 (Nat.zero_lt_of_lt hk)
    obtain ⟨⟨c, hinside⟩, e, he⟩ := exists_inside_of_balanced (by decide) hne
    obtain ⟨inner, hinner, hdepth⟩ := getElem?_braceDepthsFrom_body he
      (bracesOpenAfter 0 (t.take start) + 1) (c :: (balanced '{' '}' ('{' :: z)).2) hk
    rw [← hinside] at hdepth
    have hplace : (braceDepths t)[start + 1 + k]? =
        some (bracesOpenAfter 0 (t.take start) + 1 + inner) := by
      rw [htable, List.getElem?_append_right (by omega), hfront,
        show start + 1 + k - start = k + 1 by omega, List.getElem?_cons_succ, hdepth]
    refine ⟨inner, hinner, hplace, ?_⟩
    rw [topLevelAt, hinner, hplace]
    simp

/-- A block that is never closed, behind two stray closers. -/
def openBlock : Text := "\x7d \x7d a \x7b m \x7b x \x7d n".toList

theorem braceDepths_body_openBlock :
    openBlock[6]? = some '{' ∧
    ∃ block stop outer, balancedAt ['{'] ['}'] openBlock 6 = .ok (block, stop) ∧
      (braceDepths openBlock)[6]? = some outer ∧
      ∀ k < (unwrap block).length, ∃ inner, (braceDepths (unwrap block))[k]? = some inner ∧
        (braceDepths openBlock)[6 + 1 + k]? = some (outer + inner) ∧
        (topLevelAt (braceDepths (unwrap block)) k = true ↔
          (braceDepths openBlock)[6 + 1 + k]? = some outer) :=
  ⟨by decide, braceDepths_body (by decide)⟩

end Synopsis
