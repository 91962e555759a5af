/-
Reports about a program. A report names its kind by a code, says what is
wrong in one sentence, and may point at a stretch of the program: then the
line it starts on is shown with the stretch underlined.
-/
import SamScript.Json.Basic
import SamScript.Source

namespace SamScript

/-- How grave a report is. -/
inductive Severity where
  | error
  | warning
  | info
  | hint
  deriving DecidableEq, Repr

def Severity.text : Severity → String
  | .error => "error"
  | .warning => "warning"
  | .info => "info"
  | .hint => "hint"

/-- A report. -/
structure Diagnostic where
  code : String
  message : String
  severity : Severity := .error
  span : Option Span := none
  /-- The line the span starts on. -/
  sourceLine : Option String := none
  hints : List String := []
  deriving DecidableEq, Repr

namespace Diagnostic

/-- Blanks in front of a number up to three places. -/
def padded (n : Nat) : String :=
  let digits := Nat.toDigits 10 n
  String.ofList (List.replicate (3 - digits.length) ' ' ++ digits)

/-- The underline of a span below its line: to the end column if the span
stays on the line, else to the end of the line, and one mark at least. -/
def underline (span : Span) (line : String) : String :=
  let stop := if span.start.line = span.stop.line then span.stop.column else line.length + 1
  String.ofList (List.replicate (span.start.column - 1) ' '
    ++ List.replicate (max 1 (stop - span.start.column)) '^')

/-- The lines of a report; without its source line where `showSource` is off. -/
def lines (d : Diagnostic) (showSource : Bool) : List String :=
  let place := match d.span with
    | some span => span.startText ++ ": "
    | none => ""
  let quoted := match showSource, d.span, d.sourceLine with
    | true, some span, some line =>
      ["  |", s!"{padded span.start.line} | {line}", s!"    | {underline span line}"]
    | _, _, _ => []
  [s!"{place}{d.severity.text}[{d.code}]: {d.message}"] ++ quoted
    ++ d.hints.map fun hint => s!"    = hint: {hint}"

/-- A report as it is shown. -/
def format (d : Diagnostic) (showSource : Bool) : String :=
  "\n".intercalate (d.lines showSource)

/-- A place for tools. -/
def positionJson (p : Position) : Json :=
  .object [("line", .int p.line), ("column", .int p.column), ("offset", .int p.offset)]

/-- A report for tools. -/
def toJson (d : Diagnostic) : Json :=
  .object [
    ("code", .string d.code),
    ("message", .string d.message),
    ("severity", .string d.severity.text),
    ("range", match d.span with
      | some span => .object [("start", positionJson span.start), ("end", positionJson span.stop)]
      | none => .null),
    ("hints", .array (d.hints.map .string))]

/-- Points a report that has no span yet at one; a report that has one keeps
it. -/
def locate (d : Diagnostic) (span : Option Span) (sourceLine : Option String) : Diagnostic :=
  match d.span, span with
  | none, some span => { d with span := some span, sourceLine }
  | _, _ => d

end Diagnostic

end SamScript
