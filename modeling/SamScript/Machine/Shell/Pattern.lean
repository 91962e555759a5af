/-
Patterns, in which a star stands for any text, a question mark for any
character and brackets for one of several. Quoted characters stand for
themselves only.
-/
import SamScript.Machine.Files

namespace SamScript.Machine.Shell

/-- A character of an expanded word, and whether it was quoted. -/
structure Mark where
  char : Char
  quoted : Bool
  deriving DecidableEq, Repr

namespace Mark

/-- Whether it is this character, with its special meaning. -/
def isActive (m : Mark) (c : Char) : Bool :=
  !m.quoted && m.char = c

/-- The characters themselves. -/
def text (ms : List Mark) : Octets :=
  ms.map Mark.char

/-- Characters that were all quoted, or all not. -/
def ofText (quoted : Bool) (t : Octets) : List Mark :=
  t.map fun c => ⟨c, quoted⟩

end Mark

namespace Pattern

/-- The classes of characters that go by a name. -/
def named (name : String) (c : Char) : Bool :=
  match name with
  | "alpha" => c.isAlpha
  | "digit" => c.isDigit
  | "alnum" => c.isAlphanum
  | "upper" => c.isUpper
  | "lower" => c.isLower
  | "space" => c = ' ' || ('\t' ≤ c && c ≤ '\r')
  | "blank" => c = ' ' || c = '\t'
  | "punct" => '!' ≤ c && c ≤ '~' && !c.isAlphanum
  | "xdigit" => c.isDigit || ('a' ≤ c && c ≤ 'f') || ('A' ≤ c && c ≤ 'F')
  | _ => false

/-- What stands in brackets. -/
inductive Choice where
  | one (c : Char)
  | range (first last : Char)
  | named (name : String)

def Choice.holds (c : Char) : Choice → Bool
  | .one d => c = d
  | .range first last => first ≤ c && c ≤ last
  | .named name => Pattern.named name c

/-- The choices up to the closing bracket, and what comes after it; nothing
if it is missing. The flag says whether none came before. -/
def choices : Nat → Bool → List Mark → Option (List Choice × List Mark)
  | 0, _, _ => none
  | n + 1, first, ms =>
    match ms with
    | [] => none
    | m :: rest =>
      if m.isActive ']' && !first then some ([], rest)
      else if m.isActive '[' && (rest.head?.map (·.char)) = some ':' then
        let name := Mark.text ((rest.drop 1).takeWhile fun m => m.char ≠ ':')
        let after := (rest.drop 1).dropWhile fun m => m.char ≠ ':'
        match after with
        | _ :: m' :: after =>
          if m'.char = ']' then
            (choices n false after).map fun (cs, r) => (.named (String.ofList name) :: cs, r)
          else (choices n false rest).map fun (cs, r) => (.one '[' :: cs, r)
        | _ => (choices n false rest).map fun (cs, r) => (.one '[' :: cs, r)
      else
        match rest with
        | dash :: last :: after =>
          if dash.isActive '-' && !last.isActive ']' then
            (choices n false after).map fun (cs, r) => (.range m.char last.char :: cs, r)
          else (choices n false rest).map fun (cs, r) => (.one m.char :: cs, r)
        | rest => (choices n false rest).map fun (cs, r) => (.one m.char :: cs, r)

/-- Whether a pattern matches a whole text. The first argument bounds the
number of steps. -/
def matchesFrom : Nat → List Mark → Octets → Bool
  | 0, _, _ => false
  | n + 1, ms, text =>
    match ms with
    | [] => text.isEmpty
    | m :: rest =>
      if m.isActive '*' then
        matchesFrom n rest text || (match text with
          | [] => false
          | _ :: t => matchesFrom n ms t)
      else
        match text with
        | [] => false
        | c :: t =>
          if m.isActive '?' then matchesFrom n rest t
          else if m.isActive '[' then
            let (negated, inside) : Bool × List Mark := match rest with
              | x :: after => if x.isActive '!' || x.isActive '^' then (true, after) else (false, rest)
              | [] => (false, [])
            match choices (inside.length + 1) true inside with
            | some (cs, after) => (cs.any (Choice.holds c) != negated) && matchesFrom n after t
            | none => c = '[' && matchesFrom n rest t
          else c = m.char && matchesFrom n rest t

/-- Whether a pattern matches a whole text. -/
def isMatch (ms : List Mark) (text : Octets) : Bool :=
  matchesFrom (ms.length + text.length + 1) ms text

/-- Whether a word has to be compared with the names of files. -/
def isGlob (ms : List Mark) : Bool :=
  ms.any fun m => m.isActive '*' || m.isActive '?' || m.isActive '['

/-- A text without the shortest or longest beginning that matches. -/
def dropFront (longest : Bool) (ms : List Mark) (text : Octets) : Octets :=
  let sizes := List.range (text.length + 1)
  match (if longest then sizes.reverse else sizes).find? fun n => isMatch ms (text.take n) with
  | some n => text.drop n
  | none => text

/-- A text without the shortest or longest end that matches. -/
def dropBack (longest : Bool) (ms : List Mark) (text : Octets) : Octets :=
  let sizes := List.range (text.length + 1)
  match (if longest then sizes else sizes.reverse).find? fun n => isMatch ms (text.drop n) with
  | some n => text.take n
  | none => text

-- ================================================================ files

/-- The parts of a pattern between its slashes; `word` is the part begun,
latest first. -/
def steps : List Mark → List Mark → List (List Mark)
  | word, [] => [word.reverse]
  | word, m :: rest =>
    if m.char = '/' then word.reverse :: steps [] rest else steps (m :: word) rest

/-- The ways on from some paths by one step of a pattern; each path comes
with the directory it leads to. -/
def onward (files : Files) (step : List Mark) (last : Bool) (path : Octets) (here : Route) :
    List (Octets × Route) :=
  let go (name : Octets) : Option (Octets × Route) :=
    match files.step here name with
    | .ok place => some (path ++ name ++ (if last then [] else ['/']), place)
    | .error _ => none
  if isGlob step then
    let hidden := (step.head?.map Mark.char) = some '.'
    let names := (files.names here).filter fun name =>
      isMatch step name && (hidden || name.head? ≠ some '.')
    (names.mergeSort fun a b => !b.lex a fun x y => x < y).filterMap go
  else (go (Mark.text step)).toList

/-- The paths that a pattern matches, in order. -/
def paths (files : Files) : List (List Mark) → List (Octets × Route) → List Octets
  | [], found => found.map Prod.fst
  | [step], found => (found.flatMap fun (p, r) => onward files step true p r).map Prod.fst
  | step :: rest, found => paths files rest (found.flatMap fun (p, r) => onward files step false p r)

/-- The files that a word matches, seen from a directory. -/
def glob (files : Files) (working : Route) (ms : List Mark) : List Octets :=
  let start : List (Octets × Route) := [([], if (ms.head?.map Mark.char) = some '/' then [] else working)]
  paths files (steps [] ms) start

end Pattern

end SamScript.Machine.Shell
