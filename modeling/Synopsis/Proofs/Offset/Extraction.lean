import Synopsis.Language
import Synopsis.Proofs.Offset.Go
import Synopsis.Proofs.Offset.Java
import Synopsis.Proofs.Offset.Php
import Synopsis.Proofs.Offset.Python
import Synopsis.Proofs.Offset.Rust
import Synopsis.Proofs.Offset.Script

/-!
# Extraction by offset

The three steps of every language, with each character, each part of a split and each entry of a table
looked up at its offset or key. A fragment that is no signature is dropped; a look-up that fails ends
the whole extraction. None does: every step gives the result that it gives without look-ups, for every
language and every text (`extraction_eq_ok`).
-/

namespace Synopsis.Offset

open Text

/-- The located declarations of a source. -/
def fragments : Language → Text → Except Fault (List Text)
  | .typescript => Script.fragments
  | .go => Go.fragments
  | .java => Java.fragments
  | .python => Python.fragments
  | .rust => Rust.fragments
  | .php => Php.fragments

/-- The signature of a fragment. -/
def signature : Language → Text → Except Fault Signature
  | .typescript => Script.signature
  | .go => Go.signature
  | .java => Java.signature
  | .python => Python.signature
  | .rust => Rust.signature
  | .php => Php.signature

/-- The parameters of a parameter list. -/
def parameters : Language → Text → Except Fault (List Parameter)
  | .typescript => Script.parameters
  | .go => Go.parameters
  | .java => Java.parameters
  | .python => Python.parameters
  | .rust => Rust.parameters
  | .php => Php.parameters

/-- The signature of a fragment, if it has one. A rejection is caught here, any other fault is not. -/
def normalize (l : Language) (fragment : Text) : Except Fault (Option Signature) :=
  match signature l fragment with
  | .ok s => .ok (some s)
  | .error (.rejected _) => .ok none
  | .error fault => .error fault

/-- The signatures of a source, in the order of its fragments. -/
def extract (l : Language) (source : Text) : Except Fault (List Signature) := do
  if blank source then return []
  else (← fragments l source).filterMapM (normalize l)

theorem fragments_eq_ok (l : Language) (source : Text) :
    fragments l source = .ok (l.fragments source) := by
  cases l with
  | typescript => exact Script.fragments_eq_ok source
  | go => exact Go.fragments_eq_ok source
  | java => exact Java.fragments_eq_ok source
  | python => exact Python.fragments_eq_ok source
  | rust => exact Rust.fragments_eq_ok source
  | php => exact Php.fragments_eq_ok source

theorem signature_eq (l : Language) (fragment : Text) :
    signature l fragment = (l.signature fragment).mapError .rejected := by
  cases l with
  | typescript => exact Script.signature_eq fragment
  | go => exact Go.signature_eq fragment
  | java => exact Java.signature_eq fragment
  | python => exact Python.signature_eq fragment
  | rust => exact Rust.signature_eq fragment
  | php => exact Php.signature_eq fragment

theorem parameters_eq_ok (l : Language) (t : Text) : parameters l t = .ok (l.parameters t) := by
  cases l with
  | typescript => exact Script.parameters_eq_ok t
  | go => exact Go.parameters_eq_ok t
  | java => exact Java.parameters_eq_ok t
  | python => exact Python.parameters_eq_ok t
  | rust => exact Rust.parameters_eq_ok t
  | php => exact Php.parameters_eq_ok t

/-- The only fault of a fragment is a rejection, and that is caught. -/
theorem normalize_eq_ok (l : Language) (fragment : Text) :
    normalize l fragment = .ok (l.signature fragment).toOption := by
  rw [normalize, signature_eq]
  cases l.signature fragment with
  | ok s => rfl
  | error reason => rfl

theorem extract_eq_ok (l : Language) (source : Text) : extract l source = .ok (l.extract source) := by
  rw [extract, Language.extract, extractWith]
  cases blank source with
  | true => rfl
  | false =>
    rw [fragments_eq_ok, ok_bind]
    exact filterMapM_eq_ok fun f _ => normalize_eq_ok l f

/-- No look-up fails, in any language and on any text: locating, reading a fragment, reading a parameter
    list and the extraction made of them all end with the result that they have without look-ups. -/
theorem extraction_eq_ok (l : Language) :
    (∀ source, fragments l source = .ok (l.fragments source)) ∧
      (∀ fragment, normalize l fragment = .ok (l.signature fragment).toOption) ∧
      (∀ list, parameters l list = .ok (l.parameters list)) ∧
      ∀ source, extract l source = .ok (l.extract source) :=
  ⟨fragments_eq_ok l, normalize_eq_ok l, parameters_eq_ok l, extract_eq_ok l⟩

end Synopsis.Offset
