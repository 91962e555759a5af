/-
Paths of files, by their names alone: repeated slashes and steps to the same
place are dropped, steps upwards are kept. Two leading slashes, but not
three, are a root of their own.
-/
namespace SamScript

/-- A path: how many slashes it is rooted in, and its steps. -/
structure Path where
  root : Nat
  steps : List String
  deriving DecidableEq, Repr

namespace Path

/-- Splits a text at slashes; `word` is the part begun, latest character
first. -/
def parts : List Char → List Char → List (List Char)
  | word, [] => [word.reverse]
  | word, '/' :: rest => word.reverse :: parts [] rest
  | word, c :: rest => parts (c :: word) rest

/-- The path that a text names. -/
def ofText (text : String) : Path :=
  let cs := text.toList
  let slashes := (cs.takeWhile (· = '/')).length
  { root := if slashes = 2 then 2 else min slashes 1
    steps := ((parts [] cs).filter fun p => !p.isEmpty && p ≠ ['.']).map String.ofList }

/-- The text of a path; the empty one is written as a single dot. -/
def text (p : Path) : String :=
  let body := String.ofList (List.replicate p.root '/') ++ "/".intercalate p.steps
  if body.isEmpty then "." else body

/-- Whether a path starts from a root. -/
def isAbsolute (p : Path) : Bool :=
  p.root ≠ 0

/-- One path followed from the end of another; a rooted one stands alone. -/
def join (p q : Path) : Path :=
  if q.isAbsolute then q else { p with steps := p.steps ++ q.steps }

/-- The last step, empty if there is none. -/
def name (p : Path) : String :=
  p.steps.getLast?.getD ""

end Path

end SamScript
