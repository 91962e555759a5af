/-
Reading scalars. A scalar in quotes or without them may go on over several
lines: a single line end between two of its lines becomes a blank, and of
several one is dropped. A scalar under a bar keeps its lines, and one under
an angle folds them. All functions take the number of steps they may take;
the length of the text is always enough.
-/
import SamScript.Yaml.Cursor

namespace SamScript.Yaml.Scalar

/-- The line ends between two lines of a scalar, as they count in it. -/
def folded (first : List Char) (more : List Char) : List Char :=
  if first ≠ ['\n'] then first ++ more
  else if more.isEmpty then [' ']
  else more

-- ============================================================== quoted

/-- The characters that single letters escape. -/
def escape? : Char → Option Char
  | '0' => some '\x00'
  | 'a' => some '\x07'
  | 'b' => some '\x08'
  | 't' => some '\t'
  | '\t' => some '\t'
  | 'n' => some '\n'
  | 'v' => some '\x0b'
  | 'f' => some '\x0c'
  | 'r' => some '\r'
  | 'e' => some '\x1b'
  | ' ' => some ' '
  | '"' => some '"'
  | '\\' => some '\\'
  | '/' => some '/'
  | 'N' => some '\u0085'
  | '_' => some '\u00A0'
  | 'L' => some '\u2028'
  | 'P' => some '\u2029'
  | _ => none

/-- How many hexadecimal digits follow a letter. -/
def codeWidth? : Char → Option Nat
  | 'x' => some 2
  | 'u' => some 4
  | 'U' => some 8
  | _ => none

def hexDigit? (c : Char) : Option Nat :=
  if '0' ≤ c ∧ c ≤ '9' then some (c.toNat - '0'.toNat)
  else if 'a' ≤ c ∧ c ≤ 'f' then some (c.toNat - 'a'.toNat + 10)
  else if 'A' ≤ c ∧ c ≤ 'F' then some (c.toNat - 'A'.toNat + 10)
  else none

/-- The number of exactly so many hexadecimal digits at the front. -/
def code? (width : Nat) (text : List Char) : Option Nat :=
  let digits := (text.take width).filterMap hexDigit?
  if digits.length = width then some (digits.foldl (fun n d => n * 16 + d) 0) else none

/-- The lines without text at the cursor; nothing if a document ends there. -/
def emptyLines : Nat → Cursor → Option (List Char × Cursor)
  | 0, c => some ([], c)
  | n + 1, c =>
    if c.isSeparator then none
    else
      let c := c.skipWhile fun d => d = ' ' || d = '\t'
      if isBreak c.peek then
        let (b, c) := c.lineBreak
        (emptyLines n c).map fun (bs, c) => (b ++ bs, c)
      else some ([], c)

/-- The text up to the closing quote, and the cursor behind it. -/
def quoted (double : Bool) : Nat → Cursor → Option (List Char × Cursor)
  | 0, _ => none
  | n + 1, c =>
    let go (t : List Char) (c : Cursor) : Option (List Char × Cursor) :=
      (quoted double n c).map fun (more, c) => (t ++ more, c)
    let d := c.peek
    if d = '\x00' then none
    else if !double && d = '\'' then
      if c.peekAt 1 = '\'' then go ['\''] (c.skip 2) else some ([], c.next)
    else if double && d = '"' then some ([], c.next)
    else if double && d = '\\' then
      let c := c.next
      let e := c.peek
      match escape? e with
      | some decoded => go [decoded] c.next
      | none =>
        match codeWidth? e with
        | some width =>
          match code? width c.next.rest with
          | some code => if code < 0x110000 then go [Char.ofNat code] (c.next.skip width) else none
          | none => none
        | none =>
          if isBreak e then
            match emptyLines n c.lineBreak.2 with
            | some (t, c) => go t c
            | none => none
          else none
    else if d = ' ' || d = '\t' || isBreak d then
      let (blanks, c) := c.takeWhile fun d => d = ' ' || d = '\t'
      if isBreak c.peek then
        let (first, c) := c.lineBreak
        match emptyLines n c with
        | some (more, c) => go (folded first more) c
        | none => none
      else go blanks c
    else go [d] c.next

-- =============================================================== plain

/-- Whether a plain scalar ends at the cursor. Inside brackets more
characters end it. -/
def endsPlain (inFlow : Bool) (c : Cursor) : Bool :=
  let d := c.peek
  let after := c.peekAt 1
  isBlank d
    || (d = ':' && (isBlank after || (inFlow && [',', '[', ']', '\x7b', '\x7d'].contains after)))
    || (inFlow && [',', '?', '[', ']', '\x7b', '\x7d'].contains d)

/-- The characters of a plain scalar up to a gap or its end. -/
def plainRun (inFlow : Bool) : Nat → Cursor → List Char × Cursor
  | 0, c => ([], c)
  | n + 1, c =>
    if endsPlain inFlow c then ([], c)
    else
      let (t, c') := plainRun inFlow n c.next
      (c.peek :: t, c')

/-- The lines without text between two lines of a plain scalar; nothing if a
document ends there. -/
def plainEmptyLines : Nat → Cursor → Option (List Char × Cursor)
  | 0, c => some ([], c)
  | n + 1, c =>
    if c.peek = ' ' then plainEmptyLines n c.next
    else if isBreak c.peek then
      let (b, c) := c.lineBreak
      if c.isSeparator then none
      else (plainEmptyLines n c).map fun (bs, c) => (b ++ bs, c)
    else some ([], c)

/-- The gap inside a plain scalar, where the cursor is after it, and whether
it contains a line end. -/
def plainGap (n : Nat) (c : Cursor) : List Char × Cursor × Bool :=
  let (blanks, c) := c.takeWhile (· = ' ')
  if isBreak c.peek then
    let (first, c) := c.lineBreak
    if c.isSeparator then ([], c, true)
    else
      match plainEmptyLines n c with
      | some (more, c) => (folded first more, c, true)
      | none => ([], (c.skipWhile fun d => d = ' ' || isBreak d), true)
  else (blanks, c, false)

/-- A plain scalar, the cursor after it and after the gap that follows, and
whether a line ended in the last gap. `gap` is the gap before it. -/
def plain (inFlow : Bool) (indent : Int) : Nat → List Char → Cursor → List Char × Cursor × Bool
  | 0, _, c => ([], c, false)
  | n + 1, gap, c =>
    let (run, after) := plainRun inFlow c.rest.length c
    if c.peek = '#' || run.isEmpty then ([], c, false)
    else
      let (blanks, next, broken) := plainGap after.rest.length after
      if blanks.isEmpty || next.peek = '#' || (!inFlow && (next.column : Int) < indent) then
        (gap ++ run, next, broken)
      else
        let (more, last, broken') := plain inFlow indent n blanks next
        (gap ++ run ++ more, last, broken' || (more.isEmpty && broken))

-- =============================================================== block

/-- What is kept of the line ends behind a block scalar. -/
inductive Chomp where
  | strip
  | clip
  | keep
  deriving DecidableEq, Repr

/-- What a block scalar says about itself: what is kept, and how far it is
indented. -/
def header (c : Cursor) : Option (Chomp × Option Nat × Cursor) :=
  let chomp (c : Cursor) : Chomp × Cursor :=
    if c.peek = '+' then (.keep, c.next) else if c.peek = '-' then (.strip, c.next) else (.clip, c)
  let increment (c : Cursor) : Option (Option Nat × Cursor) :=
    if c.peek = '0' then none
    else if c.peek.isDigit then some (some (c.peek.toNat - '0'.toNat), c.next)
    else some (none, c)
  let found : Option (Chomp × Option Nat × Cursor) :=
    if c.peek = '+' || c.peek = '-' then do
      let (k, c) := chomp c
      let (i, c) ← increment c
      return (k, i, c)
    else do
      let (i, c) ← increment c
      match i with
      | some _ =>
        let (k, c) := chomp c
        return (k, i, c)
      | none => return (.clip, none, c)
  found.filter fun (_, _, c) => isGap c.peek

/-- The line ends before the first line of a block scalar, and the greatest
column that is reached on the way. -/
def leading : Nat → Nat → Cursor → List Char × Nat × Cursor
  | 0, most, c => ([], most, c)
  | n + 1, most, c =>
    if c.peek = ' ' then leading n (max most c.next.column) c.next
    else if isBreak c.peek then
      let (b, c) := c.lineBreak
      let (bs, most, c) := leading n most c
      (b ++ bs, most, c)
    else ([], most, c)

/-- Past the indentation of a line. -/
def dedent (indent : Nat) : Nat → Cursor → Cursor
  | 0, c => c
  | n + 1, c => if c.column < indent && c.peek = ' ' then dedent indent n c.next else c

/-- The line ends between two lines of a block scalar, and the cursor behind
the indentation of the next. -/
def between (indent : Nat) : Nat → Cursor → List Char × Cursor
  | 0, c => ([], c)
  | n + 1, c =>
    let c := dedent indent indent c
    if isBreak c.peek then
      let (b, c) := c.lineBreak
      let (bs, c) := between indent n c
      (b ++ bs, c)
    else ([], c)

/-- The lines of a block scalar: their text, the last line end and the ones
after it. `before` are the line ends in front of the first. -/
def blockLines (fold : Bool) (indent : Nat) : Nat → List Char → Cursor →
    List Char × List Char × List Char × Cursor
  | 0, before, c => ([], [], before, c)
  | n + 1, before, c =>
    if c.column ≠ indent || c.peek = '\x00' then ([], [], before, c)
    else
      let isText (c : Cursor) : Bool := c.peek ≠ ' ' && c.peek ≠ '\t'
      let (line, after) := c.takeWhile fun d => !isEnd d
      let (last, after) := after.lineBreak
      let (more, after) := between indent after.rest.length after
      if after.column = indent && after.peek ≠ '\x00' then
        let joint :=
          if fold && last = ['\n'] && isText c && isText after then
            if more.isEmpty then [' '] else []
          else last
        let (text, last, more, after) := blockLines fold indent n more after
        (before ++ line ++ joint ++ text, last, more, after)
      else (before ++ line, last, more, after)

/-- A block scalar, from behind its bar or angle. `least` is how far it has
to be indented. -/
def block (fold : Bool) (least : Nat) (c : Cursor) : Option (List Char × Cursor) := do
  let (chomp, increment, c) ← header c
  let c ← c.restOfLine?
  let size := c.rest.length + 1
  let (before, indent, c) : List Char × Nat × Cursor :=
    match increment with
    | some i =>
      let indent := least + i - 1
      let (before, c) := between indent size c
      (before, indent, c)
    | none =>
      let (before, most, c) := leading size 0 c
      (before, max least most, c)
  let (text, last, more, c) := blockLines fold indent size before c
  let tail := match chomp with
    | .strip => []
    | .clip => last
    | .keep => last ++ more
  return (text ++ tail, c)

end SamScript.Yaml.Scalar
