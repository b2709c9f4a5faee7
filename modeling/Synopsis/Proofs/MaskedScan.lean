import Synopsis.Proofs.Java.Literal
import Synopsis.Proofs.Rust.Arrow

/-!
# Scanners of one language and balanced spans

Generics with arrows and groups with literals are read by scanners of their own. Both are the balanced span
of a masked text (`scans_masked`): the scanners differ from it in what they pass over and in nothing else.
-/

namespace Synopsis

open Text

/-- What the scanners of one language read, by balanced spans. Generics are the stretch that the balanced
    span takes when the `>` of every thin arrow is masked. A group that opens with no quote ends where the
    balanced span ends when the literals met from its opener on are masked, whatever closes it, and so it
    does not depend on what these literals spell. A literal ends behind its beginning and in the text. -/
theorem scans_masked :
    (∀ (n : Char) (t : Text) (start : Nat), n ≠ '<' → n ≠ '>' → ∃ stop : Nat,
      Rust.genericsAt t start = (slice t start stop, stop) ∧
      balancedAt ['<'] ['>'] (masked n (Rust.arrowMarks none t) t) start =
        .ok (slice (masked n (Rust.arrowMarks none t) t) start stop, stop)) ∧
    (∀ (t : Text) (start : Nat), ∃! marks, Java.LiteralsFrom start t marks) ∧
    (∀ (opener closer n : Char) (t : Text) (start : Nat) (marks : List Bool),
      t[start]? = some opener → Java.isQuote opener = false → n ≠ opener → n ≠ closer →
      Java.LiteralsFrom start t marks →
      balancedAt [opener] [closer] (masked n marks t) start =
        .ok (slice (masked n marks t) start (Java.groupEnd opener closer t start),
          Java.groupEnd opener closer t start)) ∧
    (∀ (opener closer : Char) (t u : Text) (start : Nat) (marks : List Bool),
      t[start]? = some opener → Java.isQuote opener = false → Java.LiteralsFrom start t marks →
      Java.Respelled marks t u →
      Java.groupEnd opener closer u start = Java.groupEnd opener closer t start) ∧
    ∀ (t : Text) (start : Nat), start < t.length →
      ∃ stop, Java.literalEnd t start = .ok stop ∧ start < stop ∧ stop ≤ t.length := by
  refine ⟨?_, ?_, ?_, ?_, ?_⟩
  · intro n t start ho hc
    exact Rust.balancedAt_masked ho hc t start
  · intro t start
    exact Java.existsUnique_literalsFrom start t
  · intro opener closer n t start marks hstart hopener ho hc hmarks
    exact Java.balancedAt_masked hopener ho hc hstart hmarks
  · intro opener closer t u start marks hstart hopener hmarks hrespelled
    exact Java.groupEnd_respelled hopener hstart hmarks hrespelled
  · intro t start hstart
    exact Java.literalEnd_bounds hstart

/-- Generics with an arrow inside. -/
def arrowHeader : Text := "f<F: Fn(A) -> B>(x)".toList

/-- A call with closing parentheses in a string, behind an escaped quote, and in a character. -/
def quotedCall : Text := "f(\"\\\")\", ')') x".toList

/-- The same call with other characters in the string and for the character. -/
def respelledCall : Text := "f(\"\\\"(\", '*') x".toList

/-- The characters of the literals of both calls. -/
def quotedMarks : List Bool :=
  [false, false, true, true, true, true, true, false, false, true, true, true, false, false, false]

theorem scans_masked_quotedCall :
    (∃ stop : Nat, Rust.genericsAt arrowHeader 1 = (slice arrowHeader 1 stop, stop) ∧
      balancedAt ['<'] ['>'] "f<F: Fn(A) -x B>(x)".toList 1 =
        .ok (slice "f<F: Fn(A) -x B>(x)".toList 1 stop, stop)) ∧
    Java.LiteralsFrom 1 quotedCall quotedMarks ∧
    balancedAt ['('] [')'] "f(xxxxx, xxx) x".toList 1 = .ok ("(xxxxx, xxx)".toList, 13) ∧
    Java.Respelled quotedMarks quotedCall respelledCall ∧
    Java.groupEnd '(' ')' respelledCall 1 = 13 ∧
    ∃ stop, Java.literalEnd quotedCall 2 = .ok stop ∧ 2 < stop ∧ stop ≤ 15 := by
  have hmarks : Java.LiteralsFrom 1 quotedCall quotedMarks := by decide
  have hcalls : Java.Respelled quotedMarks quotedCall respelledCall := by decide
  obtain ⟨hgenerics, -, hgroup, hrespelled, hliteral⟩ := scans_masked
  exact ⟨hgenerics 'x' arrowHeader 1 (by decide) (by decide), hmarks,
    hgroup '(' ')' 'x' quotedCall 1 quotedMarks rfl rfl (by decide) (by decide) hmarks,
    hcalls,
    hrespelled '(' ')' quotedCall respelledCall 1 quotedMarks rfl rfl hmarks hcalls,
    hliteral quotedCall 2 (by decide)⟩

end Synopsis
