import Synopsis.Report.Markdown
import Synopsis.Text.Quote

/-!
# The JSON document

An array with one object per file, two spaces of indentation per level. Strings are plain ASCII: what
lies beyond it is written as UTF-16 units. Keys without a value are left out.
-/

namespace Synopsis

open Text

namespace Json

/-! ## Strings -/

/-- One UTF-16 unit as an escape. -/
def unit (n : Nat) : Text := "\\u".toList ++ hex 4 n

/-- One character inside a string. -/
def escape (c : Char) : Text :=
  if c = '"' then "\\\"".toList
  else if c = '\\' then "\\\\".toList
  else if c = '\n' then "\\n".toList
  else if c = '\r' then "\\r".toList
  else if c = '\t' then "\\t".toList
  else if c = '\x08' then "\\b".toList
  else if c = '\x0c' then "\\f".toList
  else if 32 ≤ c.toNat && c.toNat < 127 then [c]
  else if c.toNat < 0x10000 then unit c.toNat
  else
    let n := c.toNat - 0x10000
    unit (0xD800 + n / 0x400) ++ unit (0xDC00 + n % 0x400)

/-- A string with its quotes. -/
def string (t : Text) : Text := '"' :: t.flatMap escape ++ ['"']

/-! ## Blocks -/

/-- The indentation of a level. -/
def indent (level : Nat) : Text := List.replicate (2 * level) ' '

/-- Items between delimiters, each on a line of its own; without items the delimiters touch. -/
def block (opener closer : Char) (level : Nat) (items : List Text) : Text :=
  if items.isEmpty then [opener, closer]
  else
    opener :: '\n' :: join ",\n" (items.map (indent (level + 1) ++ ·)) ++
      '\n' :: indent level ++ [closer]

/-- A key with its value. -/
def field (key : String) (value : Text) : Text := string key.toList ++ ": ".toList ++ value

/-- A key with a text, left out when the text is absent or empty. -/
def textField (key : String) (value : Option Text) : List Text :=
  ((present? value).map fun v => field key (string v)).toList

/-- A key with `true`, left out when the flag is not set. -/
def flagField (key : String) (value : Bool) : List Text :=
  if value then [field key "true".toList] else []

end Json

open Json

/-- A parameter as an object. -/
def Parameter.json (level : Nat) (p : Parameter) : Text :=
  block '{' '}' level
    (field "name" (string p.name) :: textField "type" p.type ++ flagField "isMutable" p.isMutable)

/-- A signature as an object. -/
def Signature.json (level : Nat) (s : Signature) : Text :=
  block '{' '}' level
    (field "name" (string s.name) ::
      field "parameters" (block '[' ']' (level + 1) (s.parameters.map (Parameter.json (level + 2)))) ::
      textField "returnType" s.returnType ++ flagField "isAsync" s.isAsync ++
      flagField "isMethod" s.isMethod ++ textField "className" s.className)

/-- A file as an object; its code is not part of it. -/
def FileReport.json (level : Nat) (f : FileReport) : Text :=
  block '{' '}' level
    [field "path" (string f.path), field "language" (string f.language),
      field "signatures" (block '[' ']' (level + 1) (f.signatures.map (Signature.json (level + 2))))]

/-- The document for all files, in the given order. -/
def jsonDocument (files : List FileReport) : Text :=
  block '[' ']' 0 (files.map (FileReport.json 1))

end Synopsis
