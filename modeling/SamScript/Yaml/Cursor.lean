/-
A place in a YAML text. Structure is told by lines and columns, so a cursor
counts both while it moves; past the end of the text it stands on a NUL,
which no YAML text holds.
-/
namespace SamScript.Yaml

-- ========================================================== characters

/-- Ends a line. -/
def isBreak (c : Char) : Bool :=
  c = '\n' || c = '\r' || c = '\u0085' || c = '\u2028' || c = '\u2029'

/-- Ends a line or the text. -/
def isEnd (c : Char) : Bool :=
  c = '\x00' || isBreak c

/-- Ends a line or the text, or is a space. -/
def isGap (c : Char) : Bool :=
  c = ' ' || isEnd c

/-- Ends a line or the text, or is a space or a tab. -/
def isBlank (c : Char) : Bool :=
  c = '\t' || isGap c

/-- Part of the name of an anchor, a directive or a tag handle. -/
def isWordChar (c : Char) : Bool :=
  c.isAlphanum || c = '-' || c = '_'

/-- The characters that a text may hold. -/
def isAllowed (c : Char) : Bool :=
  c = '\t' || c = '\n' || c = '\r' || ('\x20' ≤ c && c ≤ '\x7E') || c = '\u0085'
    || ('\u00A0' ≤ c && c ≤ '\uFFFD') || 0x10000 ≤ c.toNat

-- ============================================================= cursors

/-- What is left of a text, and where that begins. -/
structure Cursor where
  rest : List Char
  index : Nat := 0
  line : Nat := 0
  column : Nat := 0

namespace Cursor

/-- The character at the cursor. -/
def peek (c : Cursor) : Char :=
  c.rest.headD '\x00'

/-- The character some places further. -/
def peekAt (c : Cursor) (n : Nat) : Char :=
  c.rest.getD n '\x00'

/-- One character further. A byte order mark takes up no column. -/
def next (c : Cursor) : Cursor :=
  match c.rest with
  | [] => c
  | d :: rest =>
    if isBreak d && !(d = '\r' && rest.head? = some '\n') then
      { rest, index := c.index + 1, line := c.line + 1, column := 0 }
    else
      { rest, index := c.index + 1, line := c.line
        column := if d = '\uFEFF' then c.column else c.column + 1 }

/-- Some characters further. -/
def skip (c : Cursor) : Nat → Cursor
  | 0 => c
  | n + 1 => c.next.skip n

/-- Past all characters of a kind. -/
def skipWhile (c : Cursor) (p : Char → Bool) : Cursor :=
  c.skip (c.rest.takeWhile p).length

/-- The text up to the first character that is not of a kind, and the cursor
there. -/
def takeWhile (c : Cursor) (p : Char → Bool) : List Char × Cursor :=
  (c.rest.takeWhile p, c.skipWhile p)

/-- Past a line end, and what it counts as in a scalar; nothing if there is
none. -/
def lineBreak (c : Cursor) : List Char × Cursor :=
  let d := c.peek
  if d = '\r' && c.peekAt 1 = '\n' then (['\n'], c.skip 2)
  else if d = '\n' || d = '\r' || d = '\u0085' then (['\n'], c.next)
  else if isBreak d then ([d], c.next)
  else ([], c)

/-- Whether a line of three equal marks begins here, as between documents. -/
def isMark (c : Cursor) (m : Char) : Bool :=
  c.peek = m && c.peekAt 1 = m && c.peekAt 2 = m && isBlank (c.peekAt 3)

/-- Whether one document ends here and perhaps another begins. -/
def isSeparator (c : Cursor) : Bool :=
  c.isMark '-' || c.isMark '.'

/-- Past blanks and a comment up to the end of the line, and past that;
nothing if anything else is on the line. -/
def restOfLine? (c : Cursor) : Option Cursor :=
  let c := c.skipWhile (· = ' ')
  let c := if c.peek = '#' then c.skipWhile fun d => !isEnd d else c
  if isEnd c.peek then some c.lineBreak.2 else none

end Cursor

end SamScript.Yaml
