/-
From a program text straight to its tree.
-/
import SamScript.Bounds
import SamScript.Tree.Parser

namespace SamScript

/-- Why a text is no program. -/
inductive SourceError where
  | lex (e : LexError)
  | parse (e : ParseError)
  deriving DecidableEq, Repr

/-- The report of a failure in a text with these lines. -/
def SourceError.diagnostic (lines : List String) : SourceError → Diagnostic
  | .lex e => e.diagnostic lines
  | .parse e => e.diagnostic lines

/-- The tree of a program text. -/
def Tree.ofSource (bounds : Bounds) (file : Option String) (source : String) :
    Except SourceError Tree :=
  match tokenize file source with
  | .error e => .error (.lex e)
  | .ok list =>
    match Parser.programWithin bounds.brackets list with
    | .error e => .error (.parse e)
    | .ok root => .ok ⟨root, Utf8.encode source.toList⟩

end SamScript
