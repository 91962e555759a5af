/-
The whole library.
-/
import SamScript.Bounds
import SamScript.CommandLine.Command
import SamScript.CommandLine.Files
import SamScript.CommandLine.Outcome
import SamScript.CommandLine.Word
import SamScript.Config.Basic
import SamScript.Config.Calendar
import SamScript.Config.Document
import SamScript.Config.Load
import SamScript.Decimal.Binary
import SamScript.Decimal.Notation
import SamScript.Decimal.Read
import SamScript.Decimal.Shortest
import SamScript.Decimal.Syntax
import SamScript.Diagnostic
import SamScript.Eval.Evaluator
import SamScript.Eval.Failure
import SamScript.Eval.Foreign
import SamScript.Eval.Literal
import SamScript.Eval.Program
import SamScript.Eval.Run
import SamScript.Host
import SamScript.Json.Basic
import SamScript.Json.Reader
import SamScript.Json.Writer
import SamScript.Machine.Basic
import SamScript.Machine.Escape
import SamScript.Machine.Files
import SamScript.Machine.Octets
import SamScript.Machine.Print
import SamScript.Machine.Shell.Arithmetic
import SamScript.Machine.Shell.Builtin
import SamScript.Machine.Shell.Execution
import SamScript.Machine.Shell.Expansion
import SamScript.Machine.Shell.Lexer
import SamScript.Machine.Shell.Parser
import SamScript.Machine.Shell.Pattern
import SamScript.Machine.Shell.State
import SamScript.Machine.Shell.Syntax
import SamScript.Machine.Test
import SamScript.Main
import SamScript.Path
import SamScript.Reading
import SamScript.Scope.Basic
import SamScript.Scope.Session
import SamScript.Source
import SamScript.Text.Class
import SamScript.Text.Class.Hidden
import SamScript.Text.Class.Letter
import SamScript.Text.Class.Numeric
import SamScript.Text.Encoding
import SamScript.Text.Lines
import SamScript.Text.Quoted
import SamScript.Text.Utf8
import SamScript.TextFile
import SamScript.Token.Basic
import SamScript.Token.Lexer
import SamScript.Token.Scan
import SamScript.Tree.Basic
import SamScript.Tree.OfSource
import SamScript.Tree.Outline
import SamScript.Tree.Parser
import SamScript.Tree.Walk
import SamScript.Value.Basic
import SamScript.Value.Json
import SamScript.Value.Literal
import SamScript.Value.Operator
import SamScript.Value.Render
import SamScript.Yaml.Cursor
import SamScript.Yaml.Document
import SamScript.Yaml.Lexer
import SamScript.Yaml.Node
import SamScript.Yaml.Plain
import SamScript.Yaml.Scalar
import SamScript.Yaml.Token
import SamScript.Proofs.Eval.Diagnostics
import SamScript.Proofs.Eval.Discipline
import SamScript.Proofs.Eval.Termination
import SamScript.Proofs.Eval.ReturnDiscipline
import SamScript.Proofs.Eval.ValueInvariant
import SamScript.Proofs.Eval.Safety
import SamScript.Proofs.Eval.Closure
import SamScript.Proofs.Eval.Limit
import SamScript.Proofs.Eval.Provenance
import SamScript.Proofs.Eval.Relayout
import SamScript.Proofs.Tree.Roundtrip
import SamScript.Proofs.Tree.Bounded
import SamScript.Proofs.Tree.Printed
import SamScript.Proofs.Token.Tiling
import SamScript.Proofs.Tree.Extents
import SamScript.Proofs.Eval.SourceLines
import SamScript.Proofs.Tree.Semicolons
import SamScript.Proofs.Decimal.Digits
import SamScript.Proofs.Json.Strings
import SamScript.Proofs.Json.Roundtrip
import SamScript.Proofs.Json.Nesting
import SamScript.Proofs.Value.Roundtrip
import SamScript.Proofs.Eval.Exits
import SamScript.Proofs.Eval.Malformed
import SamScript.Proofs.Tree.Numbers
import SamScript.Proofs.Value.Numbers
import SamScript.Proofs.Eval.Reports
import SamScript.Proofs.Token.Behind
import SamScript.Proofs.Tree.Onward
import SamScript.Proofs.Tree.Appended
import SamScript.Proofs.Eval.Agrees
import SamScript.Proofs.Eval.Appending
import SamScript.Proofs.Tree.Address
import SamScript.Proofs.Tree.Grouping
import SamScript.Proofs.Scope.Laws
import SamScript.Proofs.Value.Quoting
import SamScript.Proofs.Eval.Literals
import SamScript.Proofs.Eval.Rendered
import SamScript.Proofs.Token.Longest
import SamScript.Proofs.Token.Respaced
import SamScript.Proofs.Eval.Strings
import SamScript.Proofs.Tree.Leaves
import SamScript.Proofs.Eval.Bridge
import SamScript.Proofs.Eval.ElseIf
import SamScript.Proofs.Config.Loading
import SamScript.Proofs.Value.Equality
import SamScript.Proofs.Value.Words
import SamScript.Proofs.Tree.Outline
