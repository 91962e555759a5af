/-
Reading a script into its smallest parts. Quoting decides what a character
means, so words are read together with the expansions inside them. A script
that cannot be read on gives a fault in its place: what stands before it is
run all the same.
-/
import SamScript.Machine.Shell.Syntax

namespace SamScript.Machine.Shell

-- ========================================================== characters

def isBlank (c : Char) : Bool :=
  c = ' ' || c = '\t'

/-- The characters that end a word outside quotes. -/
def endsWord (c : Char) : Bool :=
  isBlank c || c = '\n' || c = ';' || c = '&' || c = '|' || c = '<' || c = '>' || c = '('
    || c = ')'

def isNameStart (c : Char) : Bool :=
  c = '_' || c.isAlpha

def isNameChar (c : Char) : Bool :=
  c = '_' || c.isAlphanum

/-- Parameters that go by a single character. -/
def isSpecial (c : Char) : Bool :=
  c = '@' || c = '*' || c = '#' || c = '?' || c = '-' || c = '$' || c = '!'

/-- Whether a text can name a variable. -/
def isName : Octets → Bool
  | [] => false
  | c :: rest => isNameStart c && rest.all isNameChar

-- =============================================================== words

/-- Joins texts that stand side by side and are quoted alike. -/
def merge : Piece → Word → Word
  | .text q t, .text q' t' :: rest =>
    if q = q' then .text q (t ++ t') :: rest else .text q t :: .text q' t' :: rest
  | p, rest => p :: rest

/-- Where a word is read, which decides what ends it and what is special. -/
inductive Setting where
  | bare
  | quoted
  /-- Inside the braces of a parameter. -/
  | braces (quoted : Bool)
  /-- A document, where quotes mean nothing. -/
  | document
  /-- A sum, with the number of brackets open in it. -/
  | sum (depth : Nat)
  deriving DecidableEq

/-- Whether what is read there counts as quoted. -/
def Setting.isQuoted : Setting → Bool
  | .bare => false
  | .braces q => q
  | _ => true

/-- Whether quotes and backslashes work there as they do outside quotes. -/
def Setting.isPlain (s : Setting) : Bool :=
  !s.isQuoted

/-- The text up to a single quote, and what comes after the quote. -/
def untilQuote (text : Octets) : Option (Octets × Octets) :=
  match text.dropWhile (· ≠ '\'') with
  | [] => none
  | _ :: rest => some (text.takeWhile (· ≠ '\''), rest)

/-- How far quoting goes on in a script that is being skipped. -/
inductive Skipping where
  | open_
  | single
  | double
  deriving DecidableEq

/-- The script up to the bracket that closes it, and what comes after. -/
def untilBracket : Skipping → Nat → Octets → Option (Octets × Octets)
  | _, _, [] => none
  | .single, depth, c :: rest =>
    (untilBracket (if c = '\'' then .open_ else .single) depth rest).map fun (a, b) => (c :: a, b)
  | s, depth, '\\' :: c :: rest =>
    (untilBracket s depth rest).map fun (a, b) => ('\\' :: c :: a, b)
  | .double, depth, c :: rest =>
    (untilBracket (if c = '"' then .open_ else .double) depth rest).map fun (a, b) => (c :: a, b)
  | .open_, depth, c :: rest =>
    if c = ')' then
      match depth with
      | 0 => some ([], rest)
      | depth + 1 => (untilBracket .open_ depth rest).map fun (a, b) => (c :: a, b)
    else
      let s : Skipping := if c = '\'' then .single else if c = '"' then .double else .open_
      let depth := if c = '(' then depth + 1 else depth
      (untilBracket s depth rest).map fun (a, b) => (c :: a, b)

/-- The script up to a backquote, and what comes after it. A backslash before
a dollar sign, a backquote or a backslash is dropped. -/
def untilBackquote (quoted : Bool) : Octets → Option (Octets × Octets)
  | [] => none
  | '`' :: rest => some ([], rest)
  | '\\' :: c :: rest =>
    let kept := if c = '$' || c = '`' || c = '\\' || (quoted && c = '"') then [c] else ['\\', c]
    (untilBackquote quoted rest).map fun (a, b) => (kept ++ a, b)
  | c :: rest => (untilBackquote quoted rest).map fun (a, b) => (c :: a, b)

/-- What is done with a parameter in braces, from the characters after its
name. -/
def form? : Octets → Option (Form × Octets)
  | ':' :: '-' :: rest => some (.orElse true, rest)
  | ':' :: '=' :: rest => some (.orAssign true, rest)
  | ':' :: '?' :: rest => some (.orFail true, rest)
  | ':' :: '+' :: rest => some (.andThen true, rest)
  | '-' :: rest => some (.orElse false, rest)
  | '=' :: rest => some (.orAssign false, rest)
  | '?' :: rest => some (.orFail false, rest)
  | '+' :: rest => some (.andThen false, rest)
  | '#' :: '#' :: rest => some (.dropFront true, rest)
  | '#' :: rest => some (.dropFront false, rest)
  | '%' :: '%' :: rest => some (.dropBack true, rest)
  | '%' :: rest => some (.dropBack false, rest)
  | _ => none

/-- The name of a parameter at the front of a text. -/
def parameterName (text : Octets) : Octets × Octets :=
  match text with
  | [] => ([], [])
  | c :: rest =>
    if isNameStart c then (text.takeWhile isNameChar, text.dropWhile isNameChar)
    else if c.isDigit then (text.takeWhile Char.isDigit, text.dropWhile Char.isDigit)
    else if isSpecial c then ([c], rest)
    else ([], text)

def missingBrace : String := "Missing '\x7d'"
def unterminated : String := "Unterminated quoted string"

mutual

/-- The pieces of a word up to its end; what ended it is left in place. -/
def pieces : Nat → Setting → Octets → Except String (Word × Octets)
  | 0, _, rest => .ok ([], rest)
  | n + 1, s, text =>
    match text with
    | [] =>
      match s with
      | .bare | .document => .ok ([], [])
      | .quoted => .error unterminated
      | .braces _ => .error missingBrace
      | .sum _ => .error "Missing '))'"
    | c :: rest =>
      let go (p : Piece) (s : Setting) (rest : Octets) : Except String (Word × Octets) :=
        (pieces n s rest).map fun (ps, rest) => (merge p ps, rest)
      if (s = .bare && endsWord c) || (s = .quoted && c = '"')
          || ((s = .braces true || s = .braces false) && c = '\x7d') then .ok ([], text)
      else if c = '\\' then
        match rest with
        | [] => go (.text s.isQuoted ['\\']) s []
        | '\n' :: rest => pieces n s rest
        | e :: rest' =>
          let escapes := s.isPlain || e = '$' || e = '`' || e = '\\' || (e = '"' && s ≠ .document)
            || (e = '\x7d' && s = .braces true)
          if escapes then go (.text true [e]) s rest' else go (.text true ['\\']) s rest
      else if c = '$' then
        match dollar n s.isQuoted rest with
        | .error e => .error e
        | .ok (p, rest) => go p s rest
      else if c = '`' then
        match untilBackquote s.isQuoted rest with
        | none => .error "EOF in backquote substitution"
        | some (script, rest) => go (.command s.isQuoted script) s rest
      else if c = '\'' && s.isPlain then
        match untilQuote rest with
        | none => .error unterminated
        | some (t, rest) => go (.text true t) s rest
      else if c = '"' && (s.isPlain || s = .braces true) then
        match pieces n .quoted rest with
        | .error e => .error e
        | .ok (inside, rest) =>
          let inside := if inside.isEmpty then [.text true []] else inside
          match pieces n s (rest.drop 1) with
          | .error e => .error e
          | .ok (ps, rest) => .ok (inside.foldr merge ps, rest)
      else
        match s with
        | .sum depth =>
          if c = ')' then
            match depth, rest with
            | 0, ')' :: rest => .ok ([], rest)
            | 0, _ => .error "Missing '))'"
            | depth + 1, _ => go (.text true [c]) (.sum depth) rest
          else go (.text true [c]) (.sum (if c = '(' then depth + 1 else depth)) rest
        | _ => go (.text s.isQuoted [c]) s rest

/-- The expansion that follows a dollar sign; the sign itself if none does. -/
def dollar : Nat → Bool → Octets → Except String (Piece × Octets)
  | 0, q, rest => .ok (.text q ['$'], rest)
  | n + 1, q, text =>
    match text with
    | '(' :: '(' :: rest =>
      (pieces n (.sum 0) rest).map fun (body, rest) => (.arithmetic q body, rest)
    | '(' :: rest =>
      match untilBracket .open_ 0 rest with
      | none => .error "end of file unexpected (expecting \")\")"
      | some (script, rest) => .ok (.command q script, rest)
    | '\x7b' :: rest => braces n q rest
    | _ =>
      match text with
      | c :: rest =>
        if c.isDigit then .ok (.parameter q [c] .value [], rest)
        else
          match parameterName text with
          | ([], _) => .ok (.text q ['$'], text)
          | (name, rest) => .ok (.parameter q name .value [], rest)
      | [] => .ok (.text q ['$'], [])

/-- A parameter in braces, after the opening one. -/
def braces : Nat → Bool → Octets → Except String (Piece × Octets)
  | 0, _, rest => .ok (.badParameter, rest)
  | n + 1, q, text =>
    let close (p : Piece) (rest : Octets) : Except String (Piece × Octets) :=
      match pieces n (.braces q) rest with
      | .error e => .error e
      | .ok (extra, rest) => .ok (if extra.isEmpty then p else .badParameter, rest.drop 1)
    let whole (name rest : Octets) : Except String (Piece × Octets) :=
      if name.isEmpty then close .badParameter rest
      else
        match form? rest with
        | some (form, rest) =>
          match pieces n (.braces q) rest with
          | .error e => .error e
          | .ok (word, rest) => .ok (.parameter q name form word, rest.drop 1)
        | none => close (.parameter q name .value []) rest
    match text with
    | '#' :: c :: rest =>
      if c = '\x7d' then whole ['#'] (c :: rest)
      else
        match parameterName (c :: rest) with
        | ([], _) => whole ['#'] (c :: rest)
        | (name, rest') =>
          if rest'.head? = some '\x7d' then close (.parameter q name .length []) rest'
          else whole ['#'] (c :: rest)
    | _ =>
      let (name, rest) := parameterName text
      whole name rest

end

/-- The pieces of a word in a setting, and what comes after them. -/
def readWord (s : Setting) (text : Octets) : Except String (Word × Octets) :=
  pieces (2 * text.length + 2) s text

-- ============================================================= scripts

/-- The operators, longer ones before those they begin with. -/
def operators : List String :=
  [";;", "&&", "||", "<<-", "<<", "<&", "<>", ">>", ">&", ">|", ";", "&", "|", "<", ">", "(", ")"]

/-- The operator at the front of a text. -/
def operator? (text : Octets) : Option (String × Octets) :=
  (operators.find? fun op => op.toList.isPrefixOf text).map fun op => (op, text.drop op.length)

/-- The end of a document, and how its text is read. -/
structure Pending where
  index : Nat
  delimiter : Octets
  /-- Nothing in it is expanded. -/
  literal : Bool
  /-- Tabs at the beginning of its lines are dropped. -/
  stripped : Bool

/-- The text of a word without its quotes. -/
def Word.unquoted (w : Word) : Octets :=
  (w.map fun p => match p with
    | .text _ t => t
    | _ => []).flatten

/-- The lines of a document up to its delimiter, and what comes after. -/
def documentLines (p : Pending) : List Octets → List Octets × List Octets
  | [] => ([], [])
  | line :: rest =>
    let line := if p.stripped then line.dropWhile (· = '\t') else line
    if line = p.delimiter then ([], rest)
    else
      let (lines, rest) := documentLines p rest
      (line :: lines, rest)

/-- The texts of the documents that begin here, and what comes after them. -/
def documents : List Pending → Octets → List (Nat × Word) × Octets
  | [], text => ([], text)
  | p :: ps, text =>
    let all := Octets.split '\n' text
    let (lines, rest) := documentLines p all
    let ended := lines.length < all.length
    let body := Octets.join ['\n'] lines ++ (if ended && !lines.isEmpty then ['\n'] else [])
    let word : Word := if p.literal then [.text true body]
      else match readWord .document body with
        | .ok (w, _) => w
        | .error _ => [.text true body]
    let (more, rest) := documents ps (Octets.join ['\n'] rest)
    ((p.index, word) :: more, rest)

/-- The number that a word of digits is. -/
def channelNumber? (w : Word) : Option Nat :=
  match w.plain? with
  | some t => if t.all Char.isDigit then (String.ofList t).toNat? else none
  | none => none

/-- Reads a script. The first argument bounds the number of steps; `pending`
are the documents to be read at the end of the line, the latest first. -/
def readFrom : Nat → Nat → Nat → List Pending → Octets → List Placed × List (Nat × Word)
  | 0, _, _, _, _ => ([], [])
  | n + 1, line, count, pending, text =>
    match text with
    | [] => ([], [])
    | c :: rest =>
      let emit (l : Lexeme) (count : Nat) (pending : List Pending) (rest : Octets) :
          List Placed × List (Nat × Word) :=
        let taken := text.take (text.length - rest.length)
        let (more, bodies) := readFrom n (line + taken.count '\n') count pending rest
        (⟨line, l⟩ :: more, bodies)
      if isBlank c then readFrom n line count pending rest
      else if c = '\\' && rest.head? = some '\n' then
        readFrom n (line + 1) count pending (rest.drop 1)
      else if c = '#' then readFrom n line count pending (rest.dropWhile (· ≠ '\n'))
      else if c = '\n' then
        let (bodies, after) := documents pending.reverse rest
        let (more, later) := emit .newline count [] after
        (more, bodies ++ later)
      else
        match operator? text with
        | some (op, rest) =>
          if op = "<<" || op = "<<-" then
            match readWord .bare (rest.dropWhile isBlank) with
            | .error e => ([⟨line, .fault e⟩], [])
            | .ok ([], _) => emit (.operator op) count pending rest
            | .ok (w, rest) =>
              let p : Pending :=
                { index := count
                  delimiter := Word.unquoted w
                  literal := w.any fun p => match p with
                    | .text q _ => q
                    | _ => false
                  stripped := op = "<<-" }
              emit (.document count []) (count + 1) (p :: pending) rest
          else emit (.operator op) count pending rest
        | none =>
          match readWord .bare text with
          | .error e => ([⟨line + text.count '\n', .fault e⟩], [])
          | .ok (w, rest) =>
            match channelNumber? w, rest with
            | some k, c :: _ =>
              if c = '<' || c = '>' then emit (.channel k) count pending rest
              else emit (.word w) count pending rest
            | _, _ => emit (.word w) count pending rest

/-- The parts of a script, the documents in their places. -/
def read (line : Nat) (text : Octets) : List Placed :=
  let (parts, bodies) := readFrom (2 * text.length + 2) line 0 [] text
  parts.map fun p =>
    match p.lexeme with
    | .document i _ => { p with lexeme := .document i ((bodies.lookup i).getD []) }
    | _ => p

end SamScript.Machine.Shell
