import Synopsis.Language.GoSignature
import Synopsis.Language.GoWindow
import Synopsis.Language.JavaSignature
import Synopsis.Language.PhpSignature
import Synopsis.Language.PythonHeader
import Synopsis.Language.PythonSignature
import Synopsis.Language.RustSignature
import Synopsis.Language.ScriptMethod
import Synopsis.Language.ScriptSignature

/-!
# Languages

The six languages and what each of them brings: its name, the file suffixes it claims, the directories
that never hold sources of its own, and the three steps of its reading. Extraction locates fragments
and keeps those that have a signature.
-/

namespace Synopsis

open Text

/-- A language whose sources can be read. -/
inductive Language where
  | typescript
  | go
  | java
  | python
  | rust
  | php
deriving DecidableEq, Repr

/-- What a language is called, which files are its own and which directories are skipped for it. -/
structure Profile where
  name : Text
  suffixes : List Text
  ignoreDirs : List Text
deriving DecidableEq, Repr

/-- The signatures of a source for any way of locating and reading fragments. A blank source has
    none, and fragments without signature are dropped. -/
def extractWith (locate : Text → List Text) (read : Text → Option Signature) (source : Text) :
    List Signature :=
  if blank source then [] else (locate source).filterMap read

namespace Language

/-- Every language, in a fixed order. -/
def all : List Language := [.typescript, .go, .java, .python, .rust, .php]

/-- Name, suffixes and skipped directories of a language. -/
def profile : Language → Profile
  | .typescript => profileOf "typescript" [".ts", ".tsx", ".js", ".jsx", ".mjs", ".cjs"]
      ["node_modules", "dist", "build", "coverage", ".next"]
  | .go => profileOf "go" [".go"] ["vendor", "testdata"]
  | .java => profileOf "java" [".java"] ["target", "build", "out", ".gradle"]
  | .python => profileOf "python" [".py"]
      ["__pycache__", ".mypy_cache", "__pypackages__", ".pytest_cache", "venv", ".venv"]
  | .rust => profileOf "rust" [".rs"] ["target"]
  | .php => profileOf "php" [".php"] ["vendor"]
where
  profileOf (name : String) (suffixes dirs : List String) : Profile :=
    ⟨name.toList, suffixes.map String.toList, dirs.map String.toList⟩

/-- The name of a language, which also labels its fenced blocks. -/
def name (l : Language) : Text := l.profile.name

/-- The language of a given name. -/
def ofName? (name : Text) : Option Language := all.find? (·.name == name)

/-- The located declarations of a source. -/
def fragments : Language → Text → List Text
  | .typescript => Script.fragments
  | .go => Go.fragments
  | .java => Java.fragments
  | .python => Python.fragments
  | .rust => Rust.fragments
  | .php => Php.fragments

/-- The signature of a fragment, or why it has none. -/
def signature : Language → Text → Except Rejection Signature
  | .typescript => Script.signature
  | .go => Go.signature
  | .java => Java.signature
  | .python => Python.signature
  | .rust => Rust.signature
  | .php => Php.signature

/-- The parameters of a parameter list. -/
def parameters : Language → Text → List Parameter
  | .typescript => Script.parameters
  | .go => Go.parameters
  | .java => Java.parameters
  | .python => Python.parameters
  | .rust => Rust.parameters
  | .php => Php.parameters

/-- The signatures of a source, in the order of its fragments. -/
def extract (l : Language) (source : Text) : List Signature :=
  extractWith l.fragments (fun f => (l.signature f).toOption) source

/-- The fragments of a source that have no signature, each with the reason. -/
def rejected (l : Language) (source : Text) : List (Text × Rejection) :=
  if blank source then []
  else (l.fragments source).filterMap fun f => match l.signature f with
    | .ok _ => none
    | .error reason => some (f, reason)

end Language

end Synopsis
