/-
Lines of a text. A line ends at a line feed, a carriage return, both in a
row, or one of the rarer separators that a display breaks at; the break is
no part of the line, and a break at the very end opens no further line.
-/
namespace SamScript.Lines

/-- The characters that end a line. -/
def isBreak (c : Char) : Bool :=
  c = '\n' || c = '\r' || c = '\x0b' || c = '\x0c' || c = '\x1c' || c = '\x1d' || c = '\x1e'
    || c = '\u0085' || c = '\u2028' || c = '\u2029'

/-- The lines of a text, given the characters of the line begun, latest
first. -/
def splitFrom : List Char → List Char → List (List Char)
  | [], [] => []
  | line@(_ :: _), [] => [line.reverse]
  | line, '\r' :: '\n' :: rest => line.reverse :: splitFrom [] rest
  | line, c :: rest =>
    if isBreak c then line.reverse :: splitFrom [] rest else splitFrom (c :: line) rest

/-- The lines of a text without their breaks. -/
def split (text : List Char) : List String :=
  (splitFrom [] text).map String.ofList

/-- Line `n` of a text, counted from one. -/
def line? (lines : List String) (n : Nat) : Option String :=
  if n = 0 then none else lines[n - 1]?

/-- A text as it is read from a file in text mode: a carriage return, alone
or before a line feed, becomes a line feed. -/
def normalize : List Char → List Char
  | [] => []
  | '\r' :: '\n' :: rest => '\n' :: normalize rest
  | c :: rest => (if c = '\r' then '\n' else c) :: normalize rest

end SamScript.Lines
