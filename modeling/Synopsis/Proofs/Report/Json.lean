import Mathlib.Data.Nat.Digits.Defs
import Synopsis.Proofs.Text.Reader
import Synopsis.Report.Json

/-!
# The JSON document can be read back

The document is an array of objects, and every part of it says by itself where it ends: the escape of a
character (`charAt?_escape`), a string up to its closing quote (`delimited_string`), a block of items up
to the delimiter that stands behind the last of them (`delimited_block`). So one induction over values
shows that what was written can be told from what follows it, whatever the depth
(`Value.delimited_write`). Two documents are then the same text exactly if they show the same files with
the same signatures (`jsonDocument_eq_iff`). An absent text and an empty one are not told apart, and the
code of a file is not shown.
-/

namespace Synopsis

open Text

namespace Json

/-- What is written for a value cannot be mistaken for another value with something behind it. -/
def Delimited {α : Type} (write : α → Text) (a : α) : Prop :=
  ∀ b s t, write a ++ s = write b ++ t → a = b ∧ s = t

/-! ## Characters -/

/-- The value of a hexadecimal digit. -/
def digitValue (c : Char) : Nat := if c.toNat < 58 then c.toNat - 48 else c.toNat - 87

/-- The number that hexadecimal digits stand for. -/
def hexValue (t : Text) : Nat := t.foldl (fun n c => 16 * n + digitValue c) 0

theorem digitValue_digitChar {n : Nat} : n < 16 → digitValue n.digitChar = n := by
  revert n
  decide

theorem hexValue_concat (t : Text) (c : Char) :
    hexValue (t ++ [c]) = 16 * hexValue t + digitValue c := by
  simp [hexValue]

theorem hexValue_toDigits (n : Nat) : hexValue (Nat.toDigits 16 n) = n := by
  induction n using Nat.strongRecOn with
  | ind n ih =>
    rw [Nat.toDigits_eq_if (by decide)]
    split
    · next h => simp [hexValue, digitValue_digitChar h]
    · rw [hexValue_concat, ih (n / 16) (by omega), digitValue_digitChar (by omega)]
      omega

theorem hexValue_hex (width n : Nat) : hexValue (hex width n) = n := by
  have hzeros (k : Nat) : hexValue (List.replicate k '0') = 0 := by
    induction k with
    | zero => rfl
    | succ k ih => rw [List.replicate_succ', hexValue_concat, ih]; rfl
  have happend (s t : Text) (hs : hexValue s = 0) : hexValue (s ++ t) = hexValue t := by
    rw [hexValue, List.foldl_append]
    exact congrArg (List.foldl _ · t) hs
  rw [hex, happend _ _ (hzeros _), hexValue_toDigits]

theorem length_hex {width n : Nat} (hwidth : 0 < width) (h : n < 16 ^ width) :
    (hex width n).length = width := by
  have hlen := (Nat.length_toDigits_le_iff (b := 16) (by decide) hwidth).2 h
  simp only [hex, List.length_append, List.length_replicate]
  omega

/-- The unit that the escape at the front of a text stands for, and what follows it. -/
def unitAt? (t : Text) : Option (Nat × Text) :=
  (after? "\\u".toList t).map fun t => (hexValue (t.take 4), t.drop 4)

theorem unitAt?_unit {n : Nat} (h : n < 0x10000) (t : Text) : unitAt? (unit n ++ t) = some (n, t) := by
  have hlen : (hex 4 n).length = 4 := length_hex (by decide) h
  rw [unitAt?, unit, List.append_assoc, after?_eq_some.2 rfl, Option.map_some, List.take_left' hlen,
    List.drop_left' hlen, hexValue_hex]

/-- The character that a letter stands for behind a backslash. -/
def letterValue (c : Char) : Char :=
  if c = 'n' then '\n'
  else if c = 'r' then '\r'
  else if c = 't' then '\t'
  else if c = 'b' then '\x08'
  else if c = 'f' then '\x0c'
  else c

/-- The character at the front of a text inside a string, and what follows it. -/
def charAt? (t : Text) : Option (Char × Text) :=
  match unitAt? t with
  | some (n, t) =>
    if 0xD800 ≤ n && n < 0xDC00 then
      (unitAt? t).map fun (m, t) => (Char.ofNat (0x10000 + (n - 0xD800) * 0x400 + (m - 0xDC00)), t)
    else some (Char.ofNat n, t)
  | none => match t with
    | '\\' :: c :: t => some (letterValue c, t)
    | c :: t => some (c, t)
    | [] => none

theorem unitAt?_eq_none {c : Char} {t : Text} (h : c ≠ '\\') : unitAt? (c :: t) = none := by
  rw [unitAt?, after?_eq_none_of_head (c := '\\') rfl (by simpa using h)]
  rfl

/-- Every character is read back from its escape. -/
theorem charAt?_escape (c : Char) (t : Text) : charAt? (escape c ++ t) = some (c, t) := by
  have hvalid : c.toNat < 0xD800 ∨ 0xDFFF < c.toNat ∧ c.toNat < 0x110000 := c.valid
  by_cases hletter : c ∈ ['"', '\\', '\n', '\r', '\t', '\x08', '\x0c']
  · simp only [List.mem_cons, List.not_mem_nil, or_false] at hletter
    rcases hletter with rfl | rfl | rfl | rfl | rfl | rfl | rfl <;> rfl
  simp only [List.mem_cons, List.not_mem_nil, or_false, not_or] at hletter
  obtain ⟨hquote, hslash, hn, hr, ht, hb, hf⟩ := hletter
  rw [escape, if_neg hquote, if_neg hslash, if_neg hn, if_neg hr, if_neg ht, if_neg hb, if_neg hf]
  split
  · simp only [List.singleton_append, charAt?, unitAt?_eq_none hslash]
    split
    · next h => exact absurd (List.cons.inj h).1 hslash
    · next h => rw [(List.cons.inj h).1, (List.cons.inj h).2]
    · next h => cases h
  · split
    · next hshort =>
      -- no character is half a surrogate pair
      have hhalf : (decide (0xD800 ≤ c.toNat) && decide (c.toNat < 0xDC00)) = false := by
        rw [Bool.and_eq_false_iff, decide_eq_false_iff_not, decide_eq_false_iff_not]
        omega
      simp only [charAt?, unitAt?_unit hshort, hhalf, Bool.false_eq_true, if_false, Char.ofNat_toNat]
    · have hhigh : 0xD800 + (c.toNat - 0x10000) / 0x400 < 0xDC00 := by omega
      have hlow : 0xDC00 + (c.toNat - 0x10000) % 0x400 < 0x10000 := by omega
      have hcode : 0x10000 + (0xD800 + (c.toNat - 0x10000) / 0x400 - 0xD800) * 0x400 +
          (0xDC00 + (c.toNat - 0x10000) % 0x400 - 0xDC00) = c.toNat := by omega
      simp only [charAt?, List.append_assoc, unitAt?_unit (Nat.lt_trans hhigh (by decide)),
        Nat.le_add_right, hhigh, decide_true, Bool.and_self, if_true, unitAt?_unit hlow,
        Option.map_some, hcode, Char.ofNat_toNat]

theorem delimited_escape (c : Char) : Delimited escape c := by
  intro d s t h
  have hread := charAt?_escape c s
  rw [h, charAt?_escape] at hread
  obtain ⟨rfl, rfl⟩ := Prod.mk.inj (Option.some.inj hread)
  exact ⟨rfl, rfl⟩

/-! ## Strings -/

theorem escape_append_ne (c : Char) (s t : Text) : escape c ++ s ≠ '"' :: t := by
  intro h
  have hread := charAt?_escape c s
  rw [h] at hread
  -- a quote stands for itself only where it closes the string
  obtain ⟨rfl, rfl⟩ := Prod.mk.inj (Option.some.inj hread)
  cases h

theorem delimited_string (t : Text) : Delimited string t := by
  have hbody (t u r r' : Text) (h : t.flatMap escape ++ '"' :: r = u.flatMap escape ++ '"' :: r') :
      t = u ∧ r = r' := by
    induction t generalizing u with
    | nil =>
      cases u with
      | nil => exact ⟨rfl, (List.cons.inj h).2⟩
      | cons d u =>
        rw [List.flatMap_cons, List.append_assoc] at h
        exact absurd h.symm (escape_append_ne d _ r)
    | cons c t ih =>
      rw [List.flatMap_cons, List.append_assoc] at h
      cases u with
      | nil => exact absurd h (escape_append_ne c _ r')
      | cons d u =>
        rw [List.flatMap_cons, List.append_assoc] at h
        obtain ⟨rfl, hrest⟩ := delimited_escape c d _ _ h
        obtain ⟨rfl, hr⟩ := ih u hrest
        exact ⟨rfl, hr⟩
  intro u s s' h
  refine hbody t u s s' ?_
  simpa [string] using h

/-! ## Blocks -/

section Blocks

variable {α : Type} {write : α → Text}

/-- The lines of a block up to the line end behind the last of them. -/
theorem items_inj {level : Nat} {xs ys : List α} (hxs : ∀ x ∈ xs, Delimited write x) (hx : xs ≠ [])
    (hy : ys ≠ []) {s t : Text}
    (h : join ",\n" ((xs.map write).map (indent level ++ ·)) ++ '\n' :: s =
      join ",\n" ((ys.map write).map (indent level ++ ·)) ++ '\n' :: t) : xs = ys ∧ s = t := by
  induction xs generalizing ys with
  | nil => exact absurd rfl hx
  | cons x xs ih =>
    cases ys with
    | nil => exact absurd rfl hy
    | cons y ys =>
      have hhead := hxs x List.mem_cons_self
      -- what stands behind an item tells whether another one follows
      rcases xs with - | ⟨x', xs⟩ <;> rcases ys with - | ⟨y', ys⟩ <;>
        simp only [List.map_cons, List.map_nil, join_singleton, join_cons_cons, List.append_assoc,
          List.append_cancel_left_eq] at h
      · obtain ⟨rfl, hrest⟩ := hhead y _ _ h
        exact ⟨rfl, (List.cons.inj hrest).2⟩
      · obtain ⟨-, hrest⟩ := hhead y _ _ h
        exact absurd (List.cons.inj hrest).1 (by decide)
      · obtain ⟨-, hrest⟩ := hhead y _ _ h
        exact absurd (List.cons.inj hrest).1 (by decide)
      · obtain ⟨rfl, hrest⟩ := hhead y _ _ h
        obtain ⟨hitems, hs⟩ := ih (fun z hz => hxs z (List.mem_cons_of_mem x hz))
          (List.cons_ne_nil x' xs) (List.cons_ne_nil y' ys) (List.append_cancel_left hrest)
        exact ⟨by rw [hitems], hs⟩

theorem delimited_block {opener closer : Char} (hcloser : closer ≠ '\n') {level : Nat} {xs : List α}
    (hxs : ∀ x ∈ xs, Delimited write x) :
    Delimited (fun xs => block opener closer level (xs.map write)) xs := by
  intro ys s t h
  simp only [block, List.isEmpty_iff, List.map_eq_nil_iff] at h
  split_ifs at h with hx hy hy
  · subst hx hy
    exact ⟨rfl, by simpa using h⟩
  · simp [hcloser] at h
  · simp [Ne.symm hcloser] at h
  · simp only [List.cons_append, List.append_assoc, List.cons.injEq, true_and] at h
    obtain ⟨rfl, hrest⟩ := items_inj hxs hx hy h
    simp only [List.append_cancel_left_eq] at hrest
    exact ⟨rfl, by simpa using hrest⟩

end Blocks

/-! ## Values -/

/-- What the document is made of. The only flag that is written is the one that is set. -/
inductive Value where
  | text (t : Text)
  | set
  | list (items : List Value)
  | object (fields : List (String × Value))

theorem Value.sizeOf_lt_of_field {fields : List (String × Value)} {f : String × Value}
    (h : f ∈ fields) : sizeOf f.2 < sizeOf (object fields) := by
  have hfield := List.sizeOf_lt_of_mem h
  cases f
  simp only [object.sizeOf_spec, Prod.mk.sizeOf_spec] at hfield ⊢
  omega

/-- A value as it stands in the document. -/
def Value.write (level : Nat) : Value → Text
  | .text t => string t
  | .set => "true".toList
  | .list items => block '[' ']' level (items.map (write (level + 1)))
  | .object fields => block '\x7b' '\x7d' level (fields.map fun f => field f.1 (write (level + 1) f.2))
termination_by v => v
decreasing_by
  · decreasing_tactic
  · exact sizeOf_lt_of_field ‹_›

theorem delimited_field {write : Value → Text} {f : String × Value} (h : Delimited write f.2) :
    Delimited (fun f => field f.1 (write f.2)) f := by
  intro g s t heq
  simp only [field, List.append_assoc] at heq
  obtain ⟨hkey, hrest⟩ := delimited_string _ _ _ _ heq
  obtain ⟨hvalue, hs⟩ := h _ _ _ (List.append_cancel_left hrest)
  exact ⟨Prod.ext (String.toList_inj.1 hkey) hvalue, hs⟩

/-- The character that a value starts with. -/
def Value.sign : Value → Char
  | .text _ => '"'
  | .set => 't'
  | .list _ => '['
  | .object _ => '\x7b'

theorem Value.head?_write (level : Nat) (v : Value) (s : Text) :
    (v.write level ++ s).head? = some v.sign := by
  have hblock (opener closer : Char) (items : List Text) :
      (block opener closer level items ++ s).head? = some opener := by
    rw [block]
    split <;> rfl
  cases v with
  | text t => rw [write]; rfl
  | set => rw [write]; rfl
  | list items => rw [write]; exact hblock _ _ _
  | object fields => rw [write]; exact hblock _ _ _

/-- Of two values that are written alike each tells the other. -/
theorem Value.delimited_write (level : Nat) (v : Value) : Delimited (write level) v := by
  intro w s t h
  have hsign := congrArg List.head? h
  rw [head?_write, head?_write] at hsign
  match v, w with
  | .text a, .text b =>
    rw [write, write] at h
    obtain ⟨rfl, hs⟩ := delimited_string a b s t h
    exact ⟨rfl, hs⟩
  | .set, .set =>
    rw [write] at h
    exact ⟨rfl, List.append_cancel_left h⟩
  | .list items, .list items' =>
    rw [write, write] at h
    have hitems : ∀ v ∈ items, Delimited (write (level + 1)) v :=
      fun v _ => v.delimited_write (level + 1)
    obtain ⟨rfl, hs⟩ := delimited_block (by decide) hitems items' s t h
    exact ⟨rfl, hs⟩
  | .object fields, .object fields' =>
    rw [write, write] at h
    have hfields : ∀ f ∈ fields, Delimited (fun f => field f.1 (write (level + 1) f.2)) f :=
      fun f _ => delimited_field (f.2.delimited_write (level + 1))
    obtain ⟨rfl, hs⟩ := delimited_block (by decide) hfields fields' s t h
    exact ⟨rfl, hs⟩
termination_by v
decreasing_by
  · decreasing_tactic
  · exact sizeOf_lt_of_field ‹_›

/-! ## Fields -/

/-- A field of an object, or nothing when it has no value. -/
def entry (key : String) (value : Option Value) : List (String × Value) := (value.map (key, ·)).toList

theorem lookup_entry (key k : String) (value : Option Value) :
    (entry k value).lookup key = if key = k then value else none := by
  cases value with
  | none => simp [entry]
  | some v =>
    by_cases h : key = k
    · simp [entry, h]
    · simp [entry, List.lookup_cons, beq_false_of_ne h, h]

/-- A text that may be absent, as a value. -/
def textValue (t : Option Text) : Option Value := (present? t).map .text

/-- A flag as a value. -/
def flagValue (b : Bool) : Option Value := if b then some .set else none

/-- Only an absent text and an empty one are the same value. -/
theorem textValue_eq_iff {t u : Option Text} : textValue t = textValue u ↔ t.getD [] = u.getD [] := by
  have hvalue (t : Option Text) :
      textValue t = if t.getD [] = [] then none else some (.text (t.getD [])) := by
    rcases t with - | - | ⟨c, t⟩ <;> rfl
  rw [hvalue, hvalue]
  refine ⟨fun h => ?_, fun h => by rw [h]⟩
  split_ifs at h with ht hu hu
  · rw [ht, hu]
  · exact Value.text.inj (Option.some.inj h)

theorem flagValue_inj {a b : Bool} (h : flagValue a = flagValue b) : a = b := by
  cases a <;> cases b
  · rfl
  · cases h
  · cases h
  · rfl

theorem map_entry (level : Nat) (key : String) (v : Value) :
    (entry key (some v)).map (fun f => field f.1 (f.2.write level)) = [field key (v.write level)] := rfl

theorem map_entry_textValue (level : Nat) (key : String) (t : Option Text) :
    (entry key (textValue t)).map (fun f => field f.1 (f.2.write level)) = textField key t := by
  rw [textValue, textField]
  cases present? t with
  | none => rfl
  | some v => rw [Option.map_some, map_entry, Value.write]; rfl

theorem map_entry_flagValue (level : Nat) (key : String) (b : Bool) :
    (entry key (flagValue b)).map (fun f => field f.1 (f.2.write level)) = flagField key b := by
  cases b with
  | false => rfl
  | true => rw [flagValue, if_pos rfl, map_entry, Value.write]; rfl

section Objects

variable {α β : Type} {fields : α → List (String × Value)}

/-- A list of objects. -/
def listValue (fields : α → List (String × Value)) (as : List α) : Value :=
  .list (as.map fun a => .object (fields a))

theorem write_listValue {json : Nat → α → Text}
    (hjson : ∀ level a, json level a = (Value.object (fields a)).write level) (level : Nat)
    (as : List α) :
    (listValue fields as).write level = block '[' ']' level (as.map (json (level + 1))) := by
  rw [listValue, Value.write, List.map_map]
  exact congrArg _ (List.map_congr_left fun a _ => (hjson (level + 1) a).symm)

/-- Lists of objects are told apart by what tells their members apart. -/
theorem listValue_eq_iff {shown : α → β} (hfields : ∀ a b, fields a = fields b ↔ shown a = shown b)
    (as bs : List α) : listValue fields as = listValue fields bs ↔ as.map shown = bs.map shown := by
  rw [listValue, listValue, Value.list.injEq]
  induction as generalizing bs with
  | nil => simp
  | cons a as ih =>
    cases bs with
    | nil => simp
    | cons b bs => simp only [List.map_cons, List.cons.injEq, Value.object.injEq, hfields, ih]

end Objects

end Json

open Json

/-! ## Parameters -/

/-- A parameter as the fields of an object. -/
def Parameter.fields (p : Parameter) : List (String × Value) :=
  entry "name" (some (.text p.name)) ++ entry "type" (textValue p.type) ++
    entry "isMutable" (flagValue p.isMutable)

theorem Parameter.json_eq_write (level : Nat) (p : Parameter) :
    p.json level = (Value.object p.fields).write level := by
  simp only [Value.write, json, fields, List.map_append, map_entry, map_entry_textValue,
    map_entry_flagValue, List.singleton_append]

/-- What a document shows of a parameter, with an empty type in the place of an absent one. -/
def Parameter.shown (p : Parameter) : Parameter := { p with type := some (p.type.getD []) }

theorem Parameter.fields_eq_iff (p q : Parameter) : p.fields = q.fields ↔ p.shown = q.shown := by
  constructor
  · intro h
    have hlookup (key : String) := congrArg (List.lookup key) h
    simp only [fields, List.lookup_append, lookup_entry] at hlookup
    have hname : p.name = q.name := by simpa using hlookup "name"
    have htype : p.type.getD [] = q.type.getD [] :=
      textValue_eq_iff.1 (by simpa using hlookup "type")
    have hmutable : p.isMutable = q.isMutable := flagValue_inj (by simpa using hlookup "isMutable")
    rw [shown, shown, hname, htype, hmutable]
  · intro h
    obtain ⟨hname, htype, hmutable⟩ := mk.inj h
    rw [fields, fields, hname, textValue_eq_iff.2 (Option.some.inj htype), hmutable]

/-! ## Signatures -/

/-- A signature as the fields of an object. -/
def Signature.fields (s : Signature) : List (String × Value) :=
  entry "name" (some (.text s.name)) ++
    entry "parameters" (some (listValue Parameter.fields s.parameters)) ++
    entry "returnType" (textValue s.returnType) ++ entry "isAsync" (flagValue s.isAsync) ++
    entry "isMethod" (flagValue s.isMethod) ++ entry "className" (textValue s.className)

theorem Signature.json_eq_write (level : Nat) (s : Signature) :
    s.json level = (Value.object s.fields).write level := by
  simp only [Value.write, json, fields, List.map_append, map_entry, map_entry_textValue,
    map_entry_flagValue, List.singleton_append, write_listValue Parameter.json_eq_write]
  rfl

/-- What a document shows of a signature, with an empty text in the place of an absent one. -/
def Signature.shown (s : Signature) : Signature :=
  { s with
    parameters := s.parameters.map Parameter.shown
    returnType := some (s.returnType.getD [])
    className := some (s.className.getD []) }

theorem Signature.fields_eq_iff (s t : Signature) : s.fields = t.fields ↔ s.shown = t.shown := by
  have hparameters := listValue_eq_iff Parameter.fields_eq_iff s.parameters t.parameters
  constructor
  · intro h
    have hlookup (key : String) := congrArg (List.lookup key) h
    simp only [fields, List.lookup_append, lookup_entry] at hlookup
    have hname : s.name = t.name := by simpa using hlookup "name"
    have hlist : listValue Parameter.fields s.parameters = listValue Parameter.fields t.parameters := by
      simpa using hlookup "parameters"
    have hreturn : s.returnType.getD [] = t.returnType.getD [] :=
      textValue_eq_iff.1 (by simpa using hlookup "returnType")
    have hasync : s.isAsync = t.isAsync := flagValue_inj (by simpa using hlookup "isAsync")
    have hmethod : s.isMethod = t.isMethod := flagValue_inj (by simpa using hlookup "isMethod")
    have howner : s.className.getD [] = t.className.getD [] :=
      textValue_eq_iff.1 (by simpa using hlookup "className")
    rw [shown, shown, hname, hparameters.1 hlist, hreturn, hasync, hmethod, howner]
  · intro h
    obtain ⟨hname, hlist, hreturn, hasync, hmethod, howner⟩ := mk.inj h
    rw [fields, fields, hname, hparameters.2 hlist, textValue_eq_iff.2 (Option.some.inj hreturn),
      hasync, hmethod, textValue_eq_iff.2 (Option.some.inj howner)]

/-! ## Files -/

/-- A file as the fields of an object. -/
def FileReport.fields (f : FileReport) : List (String × Value) :=
  entry "path" (some (.text f.path)) ++ entry "language" (some (.text f.language)) ++
    entry "signatures" (some (listValue Signature.fields f.signatures))

theorem FileReport.json_eq_write (level : Nat) (f : FileReport) :
    f.json level = (Value.object f.fields).write level := by
  simp only [Value.write, json, fields, List.map_append, map_entry, List.singleton_append,
    write_listValue Signature.json_eq_write]
  rfl

/-- What a document shows of a file. -/
def FileReport.shown (f : FileReport) : FileReport :=
  { path := f.path, language := f.language, signatures := f.signatures.map Signature.shown }

theorem FileReport.fields_eq_iff (f g : FileReport) : f.fields = g.fields ↔ f.shown = g.shown := by
  have hsignatures := listValue_eq_iff Signature.fields_eq_iff f.signatures g.signatures
  constructor
  · intro h
    have hlookup (key : String) := congrArg (List.lookup key) h
    simp only [fields, List.lookup_append, lookup_entry] at hlookup
    have hpath : f.path = g.path := by simpa using hlookup "path"
    have hlanguage : f.language = g.language := by simpa using hlookup "language"
    have hlist : listValue Signature.fields f.signatures = listValue Signature.fields g.signatures := by
      simpa using hlookup "signatures"
    rw [shown, shown, hpath, hlanguage, hsignatures.1 hlist]
  · intro h
    obtain ⟨hpath, hlanguage, hlist, -⟩ := mk.inj h
    rw [fields, fields, hpath, hlanguage, hsignatures.2 hlist]

/-! ## Documents -/

/-- Two documents are the same text exactly if they show the same files in the same order: path,
    language and signatures, with an empty text in the place of an absent one. -/
theorem jsonDocument_eq_iff {fs gs : List FileReport} :
    jsonDocument fs = jsonDocument gs ↔ fs.map FileReport.shown = gs.map FileReport.shown := by
  have hwrite (fs : List FileReport) : jsonDocument fs = (listValue FileReport.fields fs).write 0 :=
    (write_listValue FileReport.json_eq_write 0 fs).symm
  rw [hwrite, hwrite, ← listValue_eq_iff FileReport.fields_eq_iff]
  refine ⟨fun h => ?_, congrArg _⟩
  have htold := Value.delimited_write 0 (listValue FileReport.fields fs)
  exact (htold (listValue FileReport.fields gs) [] [] (congrArg (· ++ []) h)).1

end Synopsis
