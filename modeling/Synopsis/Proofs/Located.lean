import Synopsis.Proofs.Java.Agreement
import Synopsis.Proofs.Php.Agreement
import Synopsis.Proofs.Python.Agreement

/-!
# No located function is lost

The readers of Python, PHP and Java headers are independent of the locators that write them.
`signature_of_located` says that for every source the two agree: the fragments are exactly what was
located, and each is read back with the parts that stand in the source. The exceptions are named:
class entries of Python have no signature, and a Java member whose return type begins with `class` is
taken for a type and rejected.
-/

namespace Synopsis

open Text

/-- Every located function is written and read back with the parts it was located with, and nothing
    else is written but the class entries of Python. -/
theorem signature_of_located (source : Text) :
    ((∀ f s, Python.Located (CommentStyle.hash.strip source) f s →
        f ∈ Language.python.fragments source ∧ Language.python.signature f = .ok s) ∧
      ∀ f ∈ Language.python.fragments source,
        (∃ s, Python.Located (CommentStyle.hash.strip source) f s) ∨
          ∃ c ∈ Python.classes (CommentStyle.hash.strip source), f = trim c.fragment ∧
            Language.python.signature f = .error .notDefHeader) ∧
    ((∀ f s, Php.Located (CommentStyle.slashesAndHash.strip source) f s →
        f ∈ Language.php.fragments source ∧ Language.php.signature f = .ok s) ∧
      ∀ f ∈ Language.php.fragments source,
        ∃ s, Php.Located (CommentStyle.slashesAndHash.strip source) f s) ∧
    (∀ f s, Java.Located (CommentStyle.slashes.strip source) f s →
        f ∈ Language.java.fragments source ∧
          (¬ Java.OpensWithClass s → Language.java.signature f = .ok s) ∧
          (Java.OpensWithClass s → Language.java.signature f = .error .badTypeName)) ∧
      ∀ f ∈ Language.java.fragments source,
        ∃ s, Java.Located (CommentStyle.slashes.strip source) f s := by
  refine ⟨⟨fun f s h => ?_, fun f hf => ?_⟩, ⟨fun f s h => ?_, fun f hf => ?_⟩, fun f s h => ?_,
    fun f hf => ?_⟩
  · exact Python.read_located h
  · rcases Python.located_of_mem_fragments hf with hlocated | ⟨c, hc, rfl⟩
    · exact .inl hlocated
    · exact .inr ⟨c, hc, rfl, Python.signature_classEntry c⟩
  · exact Php.read_located h
  · exact Php.located_of_mem_fragments hf
  · exact Java.read_located h
  · exact Java.located_of_mem_fragments hf

/-- A class with an asynchronous method. -/
def pythonSource : Text := "class C(B):\n    async def m(self, a=f(1)) -> T[U]: pass\n".toList

/-- The method of `pythonSource`. -/
def pythonMethod : Python.Header := ⟨true, "m".toList, "self, a=f(1)".toList, some "T[U]".toList⟩

/-- A method, and a function whose return text holds an opener that is never closed. -/
def phpSource : Text :=
  "class C \x7b function m(): ?D \x7b\x7d \x7d\nfunction g(\n $a): A/*B \x7b\x7d".toList

/-- The method of `phpSource`. -/
def phpMethod : Php.Entry := .function "m".toList [] (some "?D".toList) (some "C".toList)

/-- The function of `phpSource`. -/
def phpFunction : Php.Entry := .function "g".toList "$a".toList (some "A/*B".toList) none

/-- A method with a generic return type, and one whose return type is taken for a type. -/
def javaSource : Text := "class A \x7b Map<K, V> f(int x) \x7b\x7d class g(); \x7d".toList

/-- The first method of `javaSource`. -/
def javaMethod : Java.Entry :=
  .member (some "Map<K, V>".toList) "f".toList "int x".toList "A".toList

/-- The second method of `javaSource`. -/
def javaClassMethod : Java.Entry := .member (some "class".toList) "g".toList [] "A".toList

theorem signature_of_located_sources :
    trim pythonMethod.fragment = "async def m(self, a=f(1)) -> T[U]".toList ∧
      [phpMethod, phpFunction].map Php.Entry.fragment =
        ["function m(): ?D /*__CLASS:C__*/".toList, "function g($a): A/*B".toList] ∧
      [javaMethod, javaClassMethod].map Java.Entry.fragment =
        ["Map<K, V> f(int x) @class:A".toList, "class g() @class:A".toList] ∧
      Language.python.signature (trim pythonMethod.fragment) = .ok pythonMethod.signature ∧
      Language.php.signature phpMethod.fragment = .ok phpMethod.signature ∧
      Language.php.signature phpFunction.fragment = .ok phpFunction.signature ∧
      Language.java.signature javaMethod.fragment = .ok javaMethod.signature ∧
      Language.java.signature javaClassMethod.fragment = .error .badTypeName := by
  have hpython (h : Python.Header) (hh : h ∈ Python.headers (CommentStyle.hash.strip pythonSource)) :=
    ((signature_of_located pythonSource).1.1 _ _ (Python.located_iff.2 ⟨h, hh, rfl, rfl⟩)).2
  have hphp (e : Php.Entry) (he : e ∈ Php.entries (CommentStyle.slashesAndHash.strip phpSource)) :=
    ((signature_of_located phpSource).2.1.1 _ _ (Php.located_iff.2 ⟨e, he, rfl, rfl⟩)).2
  have hjava (e : Java.Entry) (he : e ∈ Java.entries none (CommentStyle.slashes.strip javaSource)) :=
    ((signature_of_located javaSource).2.2.1 _ _ (Java.located_iff.2 ⟨e, he, rfl, rfl⟩)).2
  refine ⟨?_, ?_, ?_, hpython _ ?_, hphp _ ?_, hphp _ ?_, (hjava _ ?_).1 ?_, (hjava _ ?_).2 ?_⟩
  all_goals decide +kernel

end Synopsis
