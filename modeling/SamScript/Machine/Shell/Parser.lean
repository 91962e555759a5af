/-
From the parts of a script to commands. A script is run as it is read, one
line of commands at a time, so `nextLine` gives the commands of a line and
leaves the rest; a complaint about a later line comes too late to stop the
earlier ones.
-/
import SamScript.Machine.Shell.Lexer

namespace SamScript.Machine.Shell

/-- Why a script cannot be understood, and where. -/
structure Misread where
  line : Nat
  message : String

namespace Grammar

/-- Words that structure a script where a command may begin. -/
def reserved : List String :=
  ["!", "\x7b", "\x7d", "case", "do", "done", "elif", "else", "esac", "fi", "for", "if", "in",
    "then", "until", "while"]

/-- The reserved word that a part is. -/
def keyword? (p : Placed) : Option String :=
  match p.lexeme with
  | .word w =>
    match Word.plain? w with
    | some t =>
      let t := String.ofList t
      if reserved.contains t then some t else none
    | none => none
  | _ => none

/-- Whether the next part is a reserved word. -/
def startsWith (word : String) (ps : List Placed) : Bool :=
  (ps.head?.bind keyword?) = some word

/-- Whether the next part is an operator. -/
def startsWithOperator (op : String) (ps : List Placed) : Bool :=
  match ps with
  | ⟨_, .operator o⟩ :: _ => o = op
  | _ => false

/-- The complaint about the next part, perhaps with what should stand
there. `line` is the last line of the script. -/
def misread {α : Type} (line : Nat) (expecting : Option String) (ps : List Placed) :
    Except Misread α :=
  let tail := match expecting with
    | some e => s!" (expecting \"{e}\")"
    | none => ""
  match ps with
  | [] => .error ⟨line, "end of file unexpected" ++ tail⟩
  | p :: _ =>
    match p.lexeme with
    | .fault message => .error ⟨p.line, message⟩
    | .newline => .error ⟨p.line, "newline unexpected" ++ tail⟩
    | .operator op =>
      let name := if op.startsWith "<" || op.startsWith ">" then "redirection" else s!"\"{op}\""
      .error ⟨p.line, name ++ " unexpected" ++ tail⟩
    | .channel _ | .document _ _ => .error ⟨p.line, "redirection unexpected" ++ tail⟩
    | .word _ =>
      match keyword? p with
      | some k => .error ⟨p.line, s!"\"{k}\" unexpected" ++ tail⟩
      | none => .error ⟨p.line, "word unexpected" ++ tail⟩

/-- The line of the next part; the last line at the end of the script. -/
def lineOf (line : Nat) (ps : List Placed) : Nat :=
  (ps.head?.map Placed.line).getD line

/-- Takes a reserved word. -/
def expect (line : Nat) (word : String) (ps : List Placed) : Except Misread (List Placed) :=
  if startsWith word ps then .ok (ps.drop 1) else misread line (some word) ps

/-- Leaves line ends behind. -/
def skipNewlines : List Placed → List Placed
  | ⟨_, .newline⟩ :: rest => skipNewlines rest
  | ps => ps

/-- Whether a list of commands ends here. -/
def endsList (ps : List Placed) : Bool :=
  match ps with
  | [] => true
  | p :: _ =>
    match p.lexeme with
    | .operator op => op = ")" || op = ";;"
    | _ =>
      match keyword? p with
      | some k => ["then", "else", "elif", "fi", "do", "done", "esac", "\x7d"].contains k
      | none => false

/-- The name and the value of a word that is an assignment. -/
def assignment? (w : Word) : Option (Octets × Word) :=
  match w with
  | .text false t :: rest =>
    let name := t.takeWhile isNameChar
    match t.dropWhile isNameChar with
    | '=' :: value =>
      if isName name then
        some (name, if value.isEmpty then rest else .text false value :: rest)
      else none
    | _ => none
  | _ => none

/-- The redirection at the front of the parts, if there is one. -/
def redirection? (ps : List Placed) : Except Misread (Option (Redirection × List Placed)) :=
  let (channel, ps) : Option Nat × List Placed := match ps with
    | ⟨_, .channel n⟩ :: rest => (some n, rest)
    | ps => (none, ps)
  match ps with
  | ⟨_, .document _ text⟩ :: rest => .ok (some (⟨channel.getD 0, .document text⟩, rest))
  | ⟨line, .operator op⟩ :: rest =>
    let make (standard : Nat) (d : Word → Direction) :
        Except Misread (Option (Redirection × List Placed)) :=
      match rest with
      | ⟨_, .word w⟩ :: rest => .ok (some (⟨channel.getD standard, d w⟩, rest))
      | rest => misread line none rest
    if op = "<" || op = "<<" || op = "<<-" then make 0 .input
    else if op = ">" || op = ">|" || op = "<>" then make 1 .output
    else if op = ">>" then make 1 .append
    else if op = "<&" then make 0 .copy
    else if op = ">&" then make 1 .copy
    else .ok none
  | _ => .ok none

/-- The redirections at the front of the parts. -/
def redirections : Nat → List Placed → Except Misread (List Redirection × List Placed)
  | 0, ps => .ok ([], ps)
  | n + 1, ps => do
    match ← redirection? ps with
    | none => return ([], ps)
    | some (r, rest) =>
      let (rs, rest) ← redirections n rest
      return (r :: rs, rest)

/-- The assignments, words and redirections of a simple command. -/
def simpleParts : Nat → Bool → List Placed →
    Except Misread (List (Octets × Word) × List Word × List Redirection × List Placed)
  | 0, _, ps => .ok ([], [], [], ps)
  | n + 1, begun, ps => do
    match ← redirection? ps with
    | some (r, rest) =>
      let (as, ws, rs, rest) ← simpleParts n begun rest
      return (as, ws, r :: rs, rest)
    | none =>
      match ps with
      | ⟨_, .word w⟩ :: rest =>
        match if begun then none else assignment? w with
        | some a =>
          let (as, ws, rs, rest) ← simpleParts n false rest
          return (a :: as, ws, rs, rest)
        | none =>
          let (as, ws, rs, rest) ← simpleParts n true rest
          return (as, w :: ws, rs, rest)
      | ⟨line, .fault message⟩ :: _ => throw ⟨line, message⟩
      | _ => return ([], [], [], ps)

/-- The words of a loop over words, up to the end of their list. -/
def wordList : List Placed → List Word × List Placed
  | ⟨_, .word w⟩ :: rest =>
    let (ws, rest) := wordList rest
    (w :: ws, rest)
  | ps => ([], ps)

/-- The patterns of a branch, up to the bracket that ends them. -/
def patterns (line : Nat) : List Placed → Except Misread (List Word × List Placed)
  | ⟨_, .word w⟩ :: ⟨_, .operator "|"⟩ :: rest => do
    let (ws, rest) ← patterns line rest
    return (w :: ws, rest)
  | ⟨_, .word w⟩ :: rest =>
    if startsWithOperator ")" rest then .ok ([w], rest.drop 1) else misread line (some ")") rest
  | ps => misread line (if ps.isEmpty then some ")" else none) ps

mutual

/-- Commands up to the end of their list. On the top level the end of a line
ends it too. -/
def commands : Nat → Bool → Nat → List Placed → Except Misread (List Command × List Placed)
  | 0, _, _, ps => .ok ([], ps)
  | n + 1, top, line, ps => do
    let (first, rest) ← andOr n line ps
    let next (rest : List Placed) : Except Misread (List Command × List Placed) :=
      let rest := if top then rest else skipNewlines rest
      let atEnd := match rest with
        | ⟨_, .newline⟩ :: _ => true
        | _ => endsList rest
      if atEnd then .ok ([], rest) else commands n top line rest
    match rest with
    | ⟨_, .operator ";"⟩ :: rest =>
      let (more, rest) ← next rest
      return (first :: more, rest)
    | ⟨_, .operator "&"⟩ :: rest =>
      let (more, rest) ← next rest
      return (.background first :: more, rest)
    | ⟨_, .newline⟩ :: _ =>
      if top then return ([first], rest)
      else
        let (more, rest) ← next rest
        return (first :: more, rest)
    | rest => return ([first], rest)

/-- A list of commands inside another command. -/
def body : Nat → Nat → List Placed → Except Misread (Command × List Placed)
  | 0, _, ps => .ok (.nothing, ps)
  | n + 1, line, ps => do
    match skipNewlines ps with
    | [] => return (.nothing, [])
    | ps => do
      let (cs, rest) ← commands n false line ps
      return (.sequence cs, rest)

/-- Pipelines joined by `&&` and `||`. -/
def andOr : Nat → Nat → List Placed → Except Misread (Command × List Placed)
  | 0, _, ps => .ok (.nothing, ps)
  | n + 1, line, ps => do
    let (first, rest) ← pipeline n line ps
    andOrFrom n line first rest

def andOrFrom : Nat → Nat → Command → List Placed → Except Misread (Command × List Placed)
  | 0, _, left, ps => .ok (left, ps)
  | n + 1, line, left, ps =>
    match ps with
    | ⟨_, .operator "&&"⟩ :: rest => do
      let (right, rest) ← pipeline n line (skipNewlines rest)
      andOrFrom n line (.and left right) rest
    | ⟨_, .operator "||"⟩ :: rest => do
      let (right, rest) ← pipeline n line (skipNewlines rest)
      andOrFrom n line (.or left right) rest
    | ps => .ok (left, ps)

/-- Commands joined by pipes. -/
def pipeline : Nat → Nat → List Placed → Except Misread (Command × List Placed)
  | 0, _, ps => .ok (.nothing, ps)
  | n + 1, line, ps => do
    let negated := startsWith "!" ps
    let (parts, rest) ← pipeParts n line (if negated then ps.drop 1 else ps)
    match negated, parts with
    | false, [c] => return (c, rest)
    | _, _ => return (.pipeline negated parts, rest)

def pipeParts : Nat → Nat → List Placed → Except Misread (List Command × List Placed)
  | 0, _, ps => .ok ([], ps)
  | n + 1, line, ps => do
    let (first, rest) ← command n line ps
    if startsWithOperator "|" rest then
      let (more, rest) ← pipeParts n line (skipNewlines (rest.drop 1))
      return (first :: more, rest)
    else return ([first], rest)

/-- One command with its redirections. -/
def command : Nat → Nat → List Placed → Except Misread (Command × List Placed)
  | 0, _, ps => .ok (.nothing, ps)
  | n + 1, line, ps => do
    let here := lineOf line ps
    let withRedirections (c : Command) (rest : List Placed) :
        Except Misread (Command × List Placed) := do
      let (rs, rest) ← redirections rest.length rest
      return (if rs.isEmpty then c else .redirected here c rs, rest)
    if startsWithOperator "(" ps then
      let (c, rest) ← body n line (ps.drop 1)
      if startsWithOperator ")" rest then withRedirections (.subshell c) (rest.drop 1)
      else misread line (some ")") rest
    else
      match ps.head?.bind keyword? with
      | none => simple n line ps
      | some k =>
        let rest := ps.drop 1
        if k = "\x7b" then
          let (c, rest) ← body n line rest
          withRedirections c (← expect line "\x7d" rest)
        else if k = "if" then
          let (c, rest) ← conditional n line rest
          withRedirections c rest
        else if k = "while" || k = "until" then
          let (test, rest) ← body n line rest
          let (c, rest) ← body n line (← expect line "do" rest)
          withRedirections (.loop (k = "while") test c) (← expect line "done" rest)
        else if k = "for" then
          let (c, rest) ← each n line rest
          withRedirections c rest
        else if k = "case" then
          let (c, rest) ← choose n line rest
          withRedirections c rest
        else misread line none ps

/-- What follows `if` or `elif`. -/
def conditional : Nat → Nat → List Placed → Except Misread (Command × List Placed)
  | 0, _, ps => .ok (.nothing, ps)
  | n + 1, line, ps => do
    let (test, rest) ← body n line ps
    let (consequence, rest) ← body n line (← expect line "then" rest)
    if startsWith "elif" rest then
      let (alternative, rest) ← conditional n line (rest.drop 1)
      return (.conditional test consequence (some alternative), rest)
    else if startsWith "else" rest then
      let (alternative, rest) ← body n line (rest.drop 1)
      return (.conditional test consequence (some alternative), ← expect line "fi" rest)
    else return (.conditional test consequence none, ← expect line "fi" rest)

/-- What follows `for`. -/
def each : Nat → Nat → List Placed → Except Misread (Command × List Placed)
  | 0, _, ps => .ok (.nothing, ps)
  | n + 1, line, ps =>
    let named : Option (Octets × List Placed) := match ps with
      | ⟨_, .word w⟩ :: rest => ((Word.plain? w).filter isName).map (·, rest)
      | _ => none
    match named with
    | none => .error ⟨lineOf line ps, "Bad for loop variable"⟩
    | some (name, rest) => do
      let rest := skipNewlines rest
      let listed : Bool := match rest with
        | ⟨_, .word w⟩ :: _ => Word.plain? w = some ['i', 'n']
        | _ => false
      let (words, rest) ←
        if listed then do
          let (ws, rest) := wordList (rest.drop 1)
          match rest with
          | ⟨_, .operator ";"⟩ :: rest | ⟨_, .newline⟩ :: rest => pure (some ws, rest)
          | rest => misread line none rest
        else pure (none, if startsWithOperator ";" rest then rest.drop 1 else rest)
      let (c, rest) ← body n line (← expect line "do" (skipNewlines rest))
      return (.each name words c, ← expect line "done" rest)

/-- What follows `case`. -/
def choose : Nat → Nat → List Placed → Except Misread (Command × List Placed)
  | 0, _, ps => .ok (.nothing, ps)
  | n + 1, line, ps =>
    match ps with
    | ⟨_, .word w⟩ :: rest => do
      let rest := skipNewlines rest
      match rest with
      | ⟨_, .word v⟩ :: rest =>
        if Word.plain? v = some ['i', 'n'] then
          let (branches, rest) ← branches n line (skipNewlines rest)
          return (.choose w branches, rest)
        else misread line (some "in") (⟨line, .word v⟩ :: rest)
      | rest => misread line (some "in") rest
    | ps => misread line none ps

def branches : Nat → Nat → List Placed →
    Except Misread (List (List Word × Command) × List Placed)
  | 0, _, ps => .ok ([], ps)
  | n + 1, line, ps =>
    if startsWith "esac" ps then .ok ([], ps.drop 1)
    else do
      let (ws, rest) ← patterns line (if startsWithOperator "(" ps then ps.drop 1 else ps)
      let rest := skipNewlines rest
      let (c, rest) ← if endsList rest then pure (.nothing, rest) else body n line rest
      if startsWithOperator ";;" rest then
        let (more, rest) ← branches n line (skipNewlines (rest.drop 1))
        return ((ws, c) :: more, rest)
      else if startsWith "esac" rest then return ([(ws, c)], rest.drop 1)
      else misread line (some ";;") rest

/-- A simple command, or the definition of a function. -/
def simple : Nat → Nat → List Placed → Except Misread (Command × List Placed)
  | 0, _, ps => .ok (.nothing, ps)
  | n + 1, line, ps =>
    match ps with
    | ⟨_, .word w⟩ :: ⟨_, .operator "("⟩ :: rest =>
      match rest with
      | ⟨_, .operator ")"⟩ :: rest =>
        match (Word.plain? w).filter isName with
        | some name => do
          let (c, rest) ← command n line (skipNewlines rest)
          return (.define name c, rest)
        | none => .error ⟨line, "Bad function name"⟩
      | rest => misread line (some ")") rest
    | ps => do
      let (as, ws, rs, rest) ← simpleParts ps.length false ps
      if as.isEmpty && ws.isEmpty && rs.isEmpty then misread line none ps
      else return (.simple (lineOf line ps) as ws rs, rest)

end

end Grammar

/-- The last line of a script that begins on some line. -/
def lastLine (line : Nat) (parts : List Placed) : Nat :=
  match parts.getLast? with
  | some ⟨line, .newline⟩ => line + 1
  | some p => p.line
  | none => line

/-- The commands of the next line of a script, and the rest of it; nothing at
its end. -/
def nextLine (line : Nat) (parts : List Placed) :
    Except Misread (Option (Command × List Placed)) :=
  let line := lastLine line parts
  match Grammar.skipNewlines parts with
  | [] => .ok none
  | ps => do
    let (cs, rest) ← Grammar.commands (20 * ps.length + 20) true line ps
    match rest with
    | [] | ⟨_, .newline⟩ :: _ => return some (.sequence cs, rest)
    | rest => Grammar.misread line none rest

end SamScript.Machine.Shell
