import Synopsis.Report.Line

/-!
# The Markdown document

One section per file: its signatures in a fenced block and, when the file carries its code, the code
in a second one.
-/

namespace Synopsis

open Text

/-- What was extracted from one file. -/
structure FileReport where
  path : Text
  language : Text
  signatures : List Signature := []
  code : Option Text := none
deriving DecidableEq, Repr

/-- Three backticks, which open and close a fenced block. -/
def fence : Text := "\x60\x60\x60".toList

/-- A heading and a fenced block of lines, with a blank line after each. -/
def fencedBlock (heading language : Text) (lines : List Text) : List Text :=
  [heading, [], fence ++ language] ++ lines ++ [fence, []]

/-- The lines of a file's section. -/
def FileReport.sectionLines (f : FileReport) : List Text :=
  let title := ["## ".toList ++ f.path, []]
  if f.signatures.isEmpty then title ++ ["_No functions found_".toList, [], []]
  else
    let signatures :=
      fencedBlock "### Function Signatures".toList f.language (f.signatures.map Signature.line)
    let source := match present? f.code with
      | some code =>
        fencedBlock "### Full Source".toList f.language [dropTrailing (· == '\n') code]
      | none => []
    title ++ signatures ++ source ++ [[]]

/-- The section of a file. -/
def FileReport.markdown (f : FileReport) : Text := join "\n" f.sectionLines

/-- The document for all files, in the given order. -/
def markdownDocument (files : List FileReport) : Text :=
  "# Code Documentation\n\n".toList ++ files.flatMap FileReport.markdown

end Synopsis
