import Synopsis.Main
import Synopsis.Proofs.Comment
import Synopsis.Proofs.Java.Header
import Synopsis.Proofs.Nesting.Piece
import Synopsis.Proofs.Rust.Agreement
import Synopsis.Proofs.Scan.Site
import Synopsis.Proofs.Java.TypeTree
import Synopsis.Proofs.Go.Window
import Synopsis.Proofs.Go.Declaration
import Synopsis.Proofs.Go.Extraction
import Synopsis.Proofs.Python.Agreement
import Synopsis.Proofs.Php.Agreement
import Synopsis.Proofs.Java.Agreement
import Synopsis.Proofs.Located
import Synopsis.Proofs.Script.Agreement
import Synopsis.Proofs.Go.Recovery
import Synopsis.Proofs.Unclosed
import Synopsis.Proofs.Owner
import Synopsis.Proofs.Fragment
import Synopsis.Proofs.Go.Composition
import Synopsis.Proofs.Go.ParameterOrder
import Synopsis.Proofs.Go.Candidate
import Synopsis.Proofs.Java.Composition
import Synopsis.Proofs.Java.EnumConstant
import Synopsis.Proofs.Java.Annotation
import Synopsis.Proofs.Python.Definition
import Synopsis.Proofs.Php.Ownership
import Synopsis.Proofs.Text.Case
import Synopsis.Proofs.Files.Registry
import Synopsis.Proofs.Files.Walk
import Synopsis.Proofs.Files.Collected
import Synopsis.Proofs.Offset.Lookup
import Synopsis.Proofs.Offset.Nesting
import Synopsis.Proofs.Offset.Python
import Synopsis.Proofs.Offset.Php
import Synopsis.Proofs.Offset.Rust
import Synopsis.Proofs.Offset.Script
import Synopsis.Proofs.Offset.Go
import Synopsis.Proofs.Offset.Java
import Synopsis.Proofs.Offset.Extraction
import Synopsis.Proofs.Nesting.Depth
import Synopsis.Proofs.Nesting.TypeText
import Synopsis.Proofs.Script.ReturnType
import Synopsis.Proofs.Script.Component
import Synopsis.Proofs.Script.Alias
import Synopsis.Proofs.StringDefault
import Synopsis.Proofs.Php.Attribute
import Synopsis.Proofs.Files.Clash
import Synopsis.Proofs.Nesting.Matched
import Synopsis.Proofs.Script.ParameterList
import Synopsis.Proofs.Text.Word
import Synopsis.Proofs.Php.ParameterList
import Synopsis.Proofs.Rust.ImplHeader
import Synopsis.Proofs.Language
import Synopsis.Proofs.Report.Json
import Synopsis.Proofs.Script.ResultLine
import Synopsis.Proofs.Report.Line
import Synopsis.Proofs.Report.Markdown
import Synopsis.Proofs.Nesting.Balanced
import Synopsis.Proofs.Nesting.Body
import Synopsis.Proofs.Nesting.Counting
import Synopsis.Proofs.Nesting.Separator
import Synopsis.Proofs.Occurrence
import Synopsis.Proofs.Php.AttributeRemoval
import Synopsis.Proofs.Nesting.Masked
import Synopsis.Proofs.Java.Literal
import Synopsis.Proofs.Rust.Arrow
import Synopsis.Proofs.MaskedScan
