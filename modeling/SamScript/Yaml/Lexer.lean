/-
From a YAML text to its tokens. A key shows as one only at the colon behind
it, so places where a key may have begun are remembered, one for each level
of brackets, and the tokens that open it are put there later. A key without
question mark has to end on its line, within 1024 characters.
-/
import SamScript.Yaml.Scalar
import SamScript.Yaml.Token

namespace SamScript.Yaml

/-- A place where a key may have begun. -/
structure KeyPlace where
  /-- How many tokens come before it. -/
  token : Nat
  /-- Nothing else can stand there. -/
  required : Bool
  index : Nat
  line : Nat
  column : Nat

/-- A text that is being taken apart. -/
structure Scanner where
  cursor : Cursor
  tokens : Array Token := #[]
  /-- How many brackets are open. -/
  flow : Nat := 0
  /-- The column of the innermost block, and of those around it. -/
  indent : Int := -1
  indents : List Int := []
  /-- A key may begin here. -/
  keyAllowed : Bool := true
  /-- The places where a key may have begun, by their levels. -/
  places : List (Nat × KeyPlace) := []

/-- A step that fails if the text is malformed. -/
abbrev Scan := StateT Scanner Option

namespace Scan

def emit (t : Token) : Scan Unit :=
  modify fun s => { s with tokens := s.tokens.push t }

def move (c : Cursor) : Scan Unit :=
  modify fun s => { s with cursor := c }

def allowKey (b : Bool) : Scan Unit :=
  modify fun s => { s with keyAllowed := b }

-- ================================================================= keys

/-- Forgets the places where no key can have begun any more. -/
def forgetStale : Scan Unit := do
  let s ← get
  let isStale (p : KeyPlace) : Bool :=
    p.line ≠ s.cursor.line || s.cursor.index - p.index > 1024
  if s.places.any fun (_, p) => isStale p && p.required then failure
  set { s with places := s.places.filter fun (_, p) => !isStale p }

/-- Forgets the place on this level. -/
def forgetPlace : Scan Unit := do
  let s ← get
  if (s.places.lookup s.flow).any (·.required) then failure
  set { s with places := s.places.filter fun p => p.1 ≠ s.flow }

/-- Remembers that a key may begin here. -/
def savePlace : Scan Unit := do
  let s ← get
  if s.keyAllowed then
    forgetPlace
    let place : KeyPlace :=
      { token := s.tokens.size
        required := s.flow = 0 && s.indent = s.cursor.column
        index := s.cursor.index
        line := s.cursor.line
        column := s.cursor.column }
    modify fun s => { s with places := (s.flow, place) :: s.places }

-- ========================================================== indentation

/-- Closes the blocks that are indented further than a column. -/
def unwind (column : Int) : Scan Unit :=
  modify fun s =>
    if s.flow ≠ 0 then s
    else
      let all := s.indent :: s.indents
      let closed := (all.takeWhile (· > column)).length
      let left := all.drop closed
      { s with
        indent := left.headD (-1)
        indents := left.drop 1
        tokens := s.tokens ++ Array.replicate closed Token.blockEnd }

/-- Opens a block at a column, if it is indented further than those that are
open. The result says whether it is. -/
def opensBlock (column : Nat) : Scan Bool := do
  let s ← get
  if s.indent < column then
    set { s with indent := (column : Int), indents := s.indent :: s.indents }
    return true
  else return false

-- =============================================================== gaps

/-- Past spaces, comments and line ends. -/
def skipGaps : Nat → Scan Unit
  | 0 => return
  | n + 1 => do
    let s ← get
    let c := s.cursor.skipWhile (· = ' ')
    let c := if c.peek = '#' then c.skipWhile fun d => !isEnd d else c
    if isBreak c.peek then
      move c.lineBreak.2
      if s.flow = 0 then allowKey true
      skipGaps n
    else move c

-- ============================================================ directives

/-- Characters of a tag, with the escaped ones decoded; nothing if there are
none. Each escaped run has to be UTF-8. -/
def isTagChar (c : Char) : Bool :=
  c.isAlphanum || "-;/?:@&=+$,_.!~*'()[]%".toList.contains c

/-- The escaped bytes at the cursor. -/
def escapedBytes : Nat → Cursor → Option (List UInt8 × Cursor)
  | 0, c => some ([], c)
  | n + 1, c =>
    if c.peek = '%' then do
      let code ← Scalar.code? 2 (c.rest.drop 1)
      let (more, c) ← escapedBytes n (c.skip 3)
      return (UInt8.ofNat code :: more, c)
    else some ([], c)

/-- The tag at the cursor. -/
def tagChars : Nat → Cursor → Option (List Char × Cursor)
  | 0, c => some ([], c)
  | n + 1, c =>
    if c.peek = '%' then do
      let (bytes, c) ← escapedBytes c.rest.length c
      let text ← String.fromUTF8? ⟨bytes.toArray⟩
      let (more, c) ← tagChars n c
      return (text.toList ++ more, c)
    else if isTagChar c.peek then do
      let (more, c') ← tagChars n c.next
      return (c.peek :: more, c')
    else some ([], c)

/-- The rest of a tag, which is never empty. -/
def tagSuffix (c : Cursor) : Option (String × Cursor) := do
  let (t, c) ← tagChars c.rest.length c
  if t.isEmpty then none else some (String.ofList t, c)

/-- The handle of a tag: one exclamation mark, or a word between two. -/
def tagHandle (c : Cursor) : Option (String × Cursor) :=
  if c.peek ≠ '!' then none
  else
    let after := c.next
    if after.peek = ' ' then some ("!", after)
    else
      let (word, after) := after.takeWhile isWordChar
      if after.peek = '!' then some (String.ofList ('!' :: word ++ ['!']), after.next) else none

/-- A number of a directive. -/
def directiveNumber (c : Cursor) : Option (Nat × Cursor) :=
  let (digits, c) := c.takeWhile Char.isDigit
  if digits.isEmpty then none else (String.ofList digits).toNat?.map (·, c)

/-- A directive, from behind its percent sign. -/
def directive (c : Cursor) : Option (Token × Cursor) := do
  let (name, c) := c.takeWhile isWordChar
  if name.isEmpty || !isGap c.peek then none
  else
    let (token, c) ← match String.ofList name with
      | "YAML" => do
        let (major, c) ← directiveNumber (c.skipWhile (· = ' '))
        if c.peek ≠ '.' then none
        let (_, c) ← directiveNumber c.next
        if isGap c.peek then pure (Token.version major, c) else none
      | "TAG" => do
        let (handle, c) ← tagHandle (c.skipWhile (· = ' '))
        if c.peek ≠ ' ' then none
        let (start, c) ← tagSuffix (c.skipWhile (· = ' '))
        if isGap c.peek then pure (Token.tagHandle handle start, c) else none
      | _ => pure (Token.directive, c.skipWhile fun d => !isEnd d)
    return (token, ← c.restOfLine?)

-- ================================================================ tokens

/-- The name of an anchor or an alias, from behind its sign. -/
def anchorName (c : Cursor) : Option (String × Cursor) :=
  let (name, c) := c.takeWhile isWordChar
  if name.isEmpty then none
  else if isBlank c.peek || "?:,]\x7d%@`".toList.contains c.peek then some (String.ofList name, c)
  else none

/-- A tag, from its exclamation mark on. -/
def tag (c : Cursor) : Option (TagText × Cursor) := do
  let (t, c) ←
    if c.peekAt 1 = '<' then do
      let (suffix, c) ← tagSuffix (c.skip 2)
      if c.peek = '>' then pure (TagText.mk none suffix, c.next) else none
    else if isBlank (c.peekAt 1) then pure (TagText.mk none "!", c.next)
    else
      let hasHandle := (c.next.rest.takeWhile fun d => !isGap d).contains '!'
      if hasHandle then do
        let (handle, c) ← tagHandle c
        let (suffix, c) ← tagSuffix c
        pure (TagText.mk (some handle) suffix, c)
      else do
        let (suffix, c) ← tagSuffix c.next
        pure (TagText.mk (some "!") suffix, c)
  if isGap c.peek then some (t, c) else none

/-- A single character that is a token, which ends what may be a key. -/
def mark (t : Token) : Scan Unit := do
  move (← get).cursor.next
  emit t

/-- A mark between documents. -/
def documentMark (t : Token) : Scan Unit := do
  unwind (-1)
  forgetPlace
  allowKey false
  move ((← get).cursor.skip 3)
  emit t

/-- A bracket that opens. -/
def opening (t : Token) : Scan Unit := do
  savePlace
  modify fun s => { s with flow := s.flow + 1 }
  allowKey true
  mark t

/-- A bracket that closes. -/
def closing (t : Token) : Scan Unit := do
  forgetPlace
  let s ← get
  if s.flow = 0 then failure
  set { s with flow := s.flow - 1 }
  allowKey false
  mark t

/-- Something that may be a key as a whole. -/
def node (read : Cursor → Option (Token × Cursor)) : Scan Unit := do
  savePlace
  allowKey false
  let (t, c) ← read (← get).cursor
  move c
  emit t

/-- The dash in front of an entry. -/
def blockEntry : Scan Unit := do
  let s ← get
  if s.flow = 0 then
    if !s.keyAllowed then failure
    if ← opensBlock s.cursor.column then emit .blockSequenceStart
  allowKey true
  forgetPlace
  mark .blockEntry

/-- The question mark in front of a key. -/
def keyMark : Scan Unit := do
  let s ← get
  if s.flow = 0 then
    if !s.keyAllowed then failure
    if ← opensBlock s.cursor.column then emit .blockMappingStart
  allowKey (s.flow = 0)
  forgetPlace
  mark .key

/-- The colon in front of a value. If a key may have begun on this level, it
has. -/
def valueMark : Scan Unit := do
  let s ← get
  match s.places.lookup s.flow with
  | some place => do
    let opens ← if s.flow = 0 then opensBlock place.column else pure false
    let start := if opens then #[Token.blockMappingStart, Token.key] else #[Token.key]
    modify fun s => { s with
      places := s.places.filter fun p => p.1 ≠ s.flow
      tokens := s.tokens.extract 0 place.token ++ start
        ++ s.tokens.extract place.token s.tokens.size
      keyAllowed := false }
  | none => do
    if s.flow = 0 then
      if !s.keyAllowed then failure
      if ← opensBlock s.cursor.column then emit .blockMappingStart
    allowKey (s.flow = 0)
    forgetPlace
  mark .value

/-- A block scalar. -/
def blockScalar (fold : Bool) : Scan Unit := do
  allowKey true
  forgetPlace
  let s ← get
  let least := (max (s.indent + 1) 1).toNat
  let (t, c) ← Scalar.block fold least s.cursor.next
  move c
  emit (.scalar (String.ofList t) false)

/-- A plain scalar. If it ends at the end of a line, a key may follow. -/
def plainScalar : Scan Unit := do
  savePlace
  let s ← get
  let (t, c, broken) := Scalar.plain (s.flow ≠ 0) (s.indent + 1) (s.cursor.rest.length + 1) []
    s.cursor
  move c
  allowKey broken
  emit (.scalar (String.ofList t) true)

/-- Whether a plain scalar can begin at a cursor. -/
def startsPlain (inFlow : Bool) (c : Cursor) : Bool :=
  let d := c.peek
  !(isBlank d || "-?:,[]\x7b\x7d#&*!|>'\"%@`".toList.contains d)
    || (!isBlank (c.peekAt 1) && (d = '-' || (!inFlow && (d = '?' || d = ':'))))

/-- A scalar in quotes. -/
def quotedScalar (double : Bool) (c : Cursor) : Option (Token × Cursor) :=
  (Scalar.quoted double (c.rest.length + 1) c.next).map fun (t, c) =>
    (.scalar (String.ofList t) false, c)

/-- Takes one step; the result says whether the text goes on. -/
def step : Scan Bool := do
  skipGaps ((← get).cursor.rest.length + 1)
  forgetStale
  unwind (← get).cursor.column
  let s ← get
  let c := s.cursor
  let atBlank := s.flow ≠ 0 || isBlank (c.peekAt 1)
  let go (x : Scan Unit) : Scan Bool := do
    x
    return true
  match c.peek with
  | '\x00' => do
    unwind (-1)
    forgetPlace
    return false
  | '[' => go (opening .flowSequenceStart)
  | '\x7b' => go (opening .flowMappingStart)
  | ']' => go (closing .flowSequenceEnd)
  | '\x7d' => go (closing .flowMappingEnd)
  | ',' => go do
    allowKey true
    forgetPlace
    mark .flowEntry
  | '*' => go (node fun c => (anchorName c.next).map fun (name, c) => (.alias name, c))
  | '&' => go (node fun c => (anchorName c.next).map fun (name, c) => (.anchor name, c))
  | '!' => go (node fun c => (tag c).map fun (t, c) => (.tag t, c))
  | '\'' => go (node (quotedScalar false))
  | '"' => go (node (quotedScalar true))
  | d =>
    if d = '%' && c.column = 0 then go do
      unwind (-1)
      forgetPlace
      allowKey false
      let (t, c) ← directive c.next
      move c
      emit t
    else if c.column = 0 && c.isMark '-' then go (documentMark .documentStart)
    else if c.column = 0 && c.isMark '.' then go (documentMark .documentEnd)
    else if d = '-' && isBlank (c.peekAt 1) then go blockEntry
    else if d = '?' && atBlank then go keyMark
    else if d = ':' && atBlank then go valueMark
    else if d = '|' && s.flow = 0 then go (blockScalar false)
    else if d = '>' && s.flow = 0 then go (blockScalar true)
    else if startsPlain (s.flow ≠ 0) c then go plainScalar
    else failure

/-- Takes steps to the end of the text. Every step but the last takes at
least one character, so the first argument suffices if it is greater than
the length of the text. -/
def all : Nat → Scan Unit
  | 0 => failure
  | n + 1 => do
    if ← step then all n

end Scan

/-- The tokens of a text, if it is well formed so far. -/
def tokens? (text : List Char) : Option (List Token) :=
  if !text.all isAllowed then none
  else
    let text := if text.head? = some '\uFEFF' then text.drop 1 else text
    ((Scan.all (text.length + 2)).run { cursor := { rest := text } }).map fun (_, s) =>
      s.tokens.toList

end SamScript.Yaml
