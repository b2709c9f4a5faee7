import Synopsis.Proofs.Scan.Site
import Synopsis.Signature

/-!
# Looking up by offset

The readers of this library go through what is left of a text and never ask for a character that may
not be there. The same reading can be done by offsets into the whole text, and then every character,
every entry of a list and every entry of a table is looked up, which fails outside of it. Here are
these look-ups, with a fault for each way to fail and one for a loop that does not get on, and the
searches whose reader looks things up. Nothing is found that is not found otherwise: a look-up at the
end of a first part is the first character of the second (`look_append`), and a search that looks
things up finds the hits of the reader to which its own comes down (`sitesBy_eq_ok`).
-/

namespace Synopsis.Offset

open Text

/-- Why a reading by offsets ends without a result. -/
inductive Fault where
  /-- A look-up outside a text, a list or a table of depths. -/
  | outside (offset : Nat)
  /-- A look-up of a key that a table does not have. -/
  | unknown (key : Char)
  /-- A loop that goes on where it already was. -/
  | standstill
  /-- A fragment that is no signature. -/
  | rejected (reason : Rejection)
deriving DecidableEq, Repr

section Lookup

variable {α : Type}

/-- The entry of a list at an offset. -/
def look (xs : List α) (i : Nat) : Except Fault α :=
  match xs[i]? with
  | some x => .ok x
  | none => .error (.outside i)

/-- The entry of a list just before an offset; there is none before its start. -/
def lookBefore (xs : List α) : Nat → Except Fault α
  | 0 => .error (.outside 0)
  | i + 1 => look xs i

/-- The last entry of a list. -/
def lookLast (xs : List α) : Except Fault α := lookBefore xs xs.length

/-- A list with the entry at an offset replaced. -/
def put (xs : List α) (i : Nat) (x : α) : Except Fault (List α) :=
  if i < xs.length then .ok (xs.set i x) else .error (.outside i)

/-- The value of a key. -/
def entry (table : List (Char × α)) (key : Char) : Except Fault α :=
  match table.lookup key with
  | some x => .ok x
  | none => .error (.unknown key)

@[simp] theorem look_append (xs ys : List α) (x : α) : look (xs ++ x :: ys) xs.length = .ok x := by
  simp [look]

theorem look_of_lt {xs : List α} {i : Nat} (h : i < xs.length) : look xs i = .ok xs[i] := by
  simp [look, h]

@[simp] theorem look_zero (x : α) (xs : List α) : look (x :: xs) 0 = .ok x := rfl

@[simp] theorem lookBefore_append (xs ys : List α) (x : α) :
    lookBefore (xs ++ x :: ys) (xs.length + 1) = .ok x := look_append xs ys x

theorem lookBefore_of_getLast? {xs : List α} {x : α} (h : xs.getLast? = some x) (ys : List α) :
    lookBefore (xs ++ ys) xs.length = .ok x := by
  obtain ⟨zs, rfl⟩ := List.getLast?_eq_some_iff.1 h
  simp

theorem length_ne_zero_of_getLast? {xs : List α} {x : α} (h : xs.getLast? = some x) :
    xs.length ≠ 0 := by
  obtain ⟨ys, rfl⟩ := List.getLast?_eq_some_iff.1 h
  simp

theorem lookLast_eq_ok {xs : List α} {x : α} (h : xs.getLast? = some x) : lookLast xs = .ok x := by
  simpa [lookLast] using lookBefore_of_getLast? h []

@[simp] theorem put_append (xs ys : List α) (x y : α) :
    put (xs ++ x :: ys) xs.length y = .ok (xs ++ y :: ys) := by
  simp [put]

end Lookup

/-! ## Running -/

section Running

variable {α β : Type}

@[simp] theorem ok_bind (a : α) (f : α → Except Fault β) : (Except.ok a >>= f) = f a := rfl

@[simp] theorem pure_eq_ok (a : α) : (pure a : Except Fault α) = .ok a := rfl

theorem mapM_eq_ok {f : α → Except Fault β} {g : α → β} {xs : List α}
    (h : ∀ x ∈ xs, f x = .ok (g x)) : xs.mapM f = .ok (xs.map g) := by
  induction xs with
  | nil => rfl
  | cons x xs ih =>
    rw [List.forall_mem_cons] at h
    rw [List.mapM_cons, h.1, ih h.2]
    rfl

theorem filterMapM_eq_ok {f : α → Except Fault (Option β)} {g : α → Option β} {xs : List α}
    (h : ∀ x ∈ xs, f x = .ok (g x)) : xs.filterMapM f = .ok (xs.filterMap g) := by
  induction xs with
  | nil => rfl
  | cons x xs ih =>
    rw [List.forall_mem_cons] at h
    rw [List.filterMapM_cons, h.1, ok_bind, List.filterMap_cons, ih h.2]
    cases g x <;> rfl

theorem flatMapM_eq_ok {f : α → Except Fault (List β)} {g : α → List β} {xs : List α}
    (h : ∀ x ∈ xs, f x = .ok (g x)) : xs.flatMapM f = .ok (xs.flatMap g) := by
  induction xs with
  | nil => rfl
  | cons x xs ih =>
    rw [List.forall_mem_cons] at h
    rw [List.flatMapM_cons, h.1, ih h.2]
    rfl

end Running

/-! ## Ends of a text -/

/-- The offset at which an end of a text starts. -/
def startOf (t rest : Text) : Nat := t.length - rest.length

@[simp] theorem startOf_append (a r : Text) : startOf (a ++ r) r = a.length := by
  simp [startOf]

theorem drop_startOf {t r : Text} (h : r <:+ t) : t.drop (startOf t r) = r := by
  obtain ⟨a, rfl⟩ := h
  simp

@[simp] theorem startOf_nil (t : Text) : startOf t [] = t.length := by
  simp [startOf]

@[simp] theorem startOf_self (t : Text) : startOf t t = 0 := by
  simp [startOf]

section Cons

variable {t r : Text} {c : Char}

theorem look_startOf (h : c :: r <:+ t) : look t (startOf t (c :: r)) = .ok c := by
  obtain ⟨a, rfl⟩ := h
  rw [startOf_append, look_append]

theorem startOf_cons (h : c :: r <:+ t) : startOf t r = startOf t (c :: r) + 1 := by
  have hlen := h.length_le
  rw [List.length_cons] at hlen
  rw [startOf, startOf, List.length_cons]
  omega

theorem startOf_cons_lt (h : c :: r <:+ t) : startOf t (c :: r) < t.length := by
  have hlen := h.length_le
  rw [List.length_cons] at hlen
  rw [startOf, List.length_cons]
  omega

end Cons

theorem startOf_lt_startOf {t r u : Text} (hr : r <:+ t) (hlt : u.length < r.length) :
    startOf t r < startOf t u := by
  have hlen := hr.length_le
  rw [startOf, startOf]
  omega

/-- The offset of the first occurrence of a character from an offset on. -/
def findAt (c : Char) (t : Text) (start : Nat) : Option Nat :=
  (cutAt? c (t.drop start)).map fun cut => start + cut.1.length

theorem findAt_startOf (c : Char) {t r : Text} (h : r <:+ t) :
    findAt c t (startOf t r) = (cutAt? c r).map fun cut => startOf t r + cut.1.length := by
  rw [findAt, drop_startOf h]

theorem findAt_zero (c : Char) (t : Text) :
    findAt c t 0 = (cutAt? c t).map fun cut => cut.1.length := by
  simp only [findAt, List.drop_zero, Nat.zero_add]

theorem before_eq_cutAt? (c : Char) (t : Text) :
    before c t = ((cutAt? c t).map Prod.fst).getD t := by
  induction t with
  | nil => rfl
  | cons x t ih =>
    rw [cutAt?, before, List.takeWhile_cons]
    by_cases hx : x = c
    · simp [hx]
    · rw [before] at ih
      rw [ih]
      cases cutAt? c t <;> simp [hx, keep]

theorem dropWhile_eq_cutAt? (c : Char) (t : Text) :
    t.dropWhile (· ≠ c) = ((cutAt? c t).map fun cut => c :: cut.2).getD [] := by
  induction t with
  | nil => rfl
  | cons x t ih =>
    rw [cutAt?, List.dropWhile_cons]
    by_cases hx : x = c
    · simp [hx]
    · rw [if_pos (by simpa using hx), if_neg hx, ih]
      cases cutAt? c t <;> rfl

theorem suffix_of_mem_sites {α : Type} {read : Place → Option (α × Text)}
    (hread : ∀ p found rest, read p = some (found, rest) → rest <:+ p.rest) {t : Text} {s : Site α}
    (h : s ∈ sites read t) : s.rest <:+ t := by
  obtain ⟨a, b, rfl, -, hhit⟩ := exists_cut_of_mem_sites h
  exact (hread _ _ _ hhit).trans (List.suffix_append a b)

/-- The offset of the first character from an offset on that does not satisfy `p`, or the end. -/
def skipFrom (p : Char → Bool) (t : Text) (i : Nat) : Except Fault Nat := do
  if i < t.length then
    if p (← look t i) then skipFrom p t (i + 1) else return i
  else return i
termination_by t.length - i

theorem skipFrom_append (p : Char → Bool) (a r : Text) :
    skipFrom p (a ++ r) a.length = .ok (a.length + (r.takeWhile p).length) := by
  induction r generalizing a with
  | nil =>
    rw [skipFrom, if_neg (by simp)]
    rfl
  | cons c r ih =>
    have hnext := ih (a ++ [c])
    simp only [List.append_assoc, List.singleton_append, List.length_append, List.length_singleton]
      at hnext
    rw [skipFrom, if_pos (by simp), look_append, ok_bind]
    cases hc : p c with
    | true => simp [hnext, hc, Nat.add_assoc, Nat.add_comm 1]
    | false => simp [hc]

theorem skipFrom_startOf (p : Char → Bool) {t r : Text} (h : r <:+ t) :
    skipFrom p t (startOf t r) = .ok (startOf t (r.dropWhile p)) := by
  obtain ⟨a, rfl⟩ := h
  have hcut : a ++ r = (a ++ r.takeWhile p) ++ r.dropWhile p := by simp
  rw [startOf_append, skipFrom_append, hcut, startOf_append, List.length_append]

/-! ## Halves -/

/-- What a text is split into where it is cut at most once: the two halves, or the text as it is. -/
def halves (cut : Option (Text × Text)) (t : Text) : List Text :=
  match cut with
  | some (head, rest) => [head, rest]
  | none => [t]

theorem look_halves (cut : Option (Text × Text)) (t : Text) :
    look (halves cut t) 0 = .ok ((cut.map Prod.fst).getD t) := by
  cases cut <;> rfl

theorem lookLast_halves (cut : Option (Text × Text)) (t : Text) :
    lookLast (halves cut t) = .ok ((cut.map Prod.snd).getD t) := by
  cases cut <;> rfl

theorem look_halves_cutAt? (c : Char) (t : Text) :
    look (halves (cutAt? c t) t) 0 = .ok (before c t) := by
  rw [look_halves, before_eq_cutAt?]

/-! ## Searches -/

/-- The hits of a reader that looks things up, in a text whose first `skip` characters are already
    taken. -/
def sitesByFrom {α : Type} (read : Place → Except Fault (Option (α × Text))) :
    (skip : Nat) → (prev : Option Char) → (offset : Nat) → Text → Except Fault (List (Site α))
  | _, _, _, [] => .ok []
  | n + 1, _, k, c :: cs => sitesByFrom read n (some c) (k + 1) cs
  | 0, prev, k, c :: cs => do
    match ← read ⟨prev, k, c :: cs⟩ with
    | some (a, rest) =>
      return ⟨k, a, rest⟩ :: (← sitesByFrom read (cs.length - rest.length) (some c) (k + 1) cs)
    | none => sitesByFrom read 0 (some c) (k + 1) cs

/-- All hits of a reader that looks things up. -/
def sitesBy {α : Type} (read : Place → Except Fault (Option (α × Text))) (t : Text) :
    Except Fault (List (Site α)) := sitesByFrom read 0 none 0 t

section Search

variable {α : Type} {readBy : Place → Except Fault (Option (α × Text))}
  {read : Place → Option (α × Text)}

theorem sitesByFrom_eq_ok {t : Text}
    (h : ∀ a b, t = a ++ b → readBy (.between a b) = .ok (read (.between a b))) {n : Nat} {a b : Text}
    (ht : t = a ++ b) :
    sitesByFrom readBy n a.getLast? a.length b = .ok (sitesFrom read n a.getLast? a.length b) := by
  induction b generalizing n a with
  | nil => simp only [sitesByFrom, sitesFrom]
  | cons c b ih =>
    have hnext (m : Nat) := ih (n := m) (a := a ++ [c]) (by simp [ht])
    simp only [List.getLast?_concat, List.length_append, List.length_cons, List.length_nil,
      Nat.zero_add] at hnext
    cases n with
    | succ n => exact hnext n
    | zero =>
      have hread := h a (c :: b) ht
      rw [Place.between] at hread
      rw [sitesByFrom, sitesFrom, hread, ok_bind]
      cases read ⟨a.getLast?, a.length, c :: b⟩ with
      | none => exact hnext 0
      | some hit =>
        obtain ⟨found, rest⟩ := hit
        simp only [hnext, ok_bind]
        rfl

/-- A search that looks things up finds what the reader finds to which its own comes down. -/
theorem sitesBy_eq_ok {t : Text}
    (h : ∀ a b, t = a ++ b → readBy (.between a b) = .ok (read (.between a b))) :
    sitesBy readBy t = .ok (sites read t) :=
  sitesByFrom_eq_ok h (a := []) rfl

end Search

end Synopsis.Offset
