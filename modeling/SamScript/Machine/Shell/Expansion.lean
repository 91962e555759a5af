/-
Expanding words: parameters, sums and the output of commands take the place
of the pieces that ask for them; what came unquoted is split into fields and
compared with the names of files. How a command is run for its output is
left open here, so that expansion does not depend on execution.
-/
import SamScript.Machine.Shell.Arithmetic
import SamScript.Machine.Shell.Lexer
import SamScript.Machine.Shell.Pattern
import SamScript.Machine.Shell.State

namespace SamScript.Machine.Shell

/-- A part of a word after expansion. -/
inductive Atom where
  /-- A character, and whether fields may be split at it. -/
  | mark (m : Mark) (splits : Bool)
  /-- The end of a field and the beginning of the next. -/
  | boundary
  /-- A quoted text without characters, which makes a field all the same. -/
  | blank

namespace Expansion

/-- The way a command is run for its output. -/
abbrev Substitute := Octets → Act Octets

/-- The atoms of a value. -/
def value (quoted : Bool) (text : Octets) : List Atom :=
  if quoted then .blank :: text.map fun c => .mark ⟨c, true⟩ false
  else text.map fun c => .mark ⟨c, false⟩ true

/-- The atoms of several values, each in a field of its own. -/
def values (quoted : Bool) (texts : List Octets) : List Atom :=
  (texts.map (value quoted)).intersperse [.boundary] |>.flatten

/-- The marks of atoms that are not split; a boundary becomes a blank. -/
def marks (atoms : List Atom) : List Mark :=
  atoms.filterMap fun a => match a with
    | .mark m _ => some m
    | .boundary => some ⟨' ', true⟩
    | .blank => none

/-- The text of atoms that are not split. -/
def text (atoms : List Atom) : Octets :=
  Mark.text (marks atoms)

/-- Without the line ends at its end. -/
def chomp (t : Octets) : Octets :=
  (t.reverse.dropWhile (· = '\n')).reverse

/-- Computes a sum, and keeps what it gave to variables. -/
def compute (body : Octets) : Act Octets := do
  let s ← get
  let result := do
    let sum ← Sum.read body
    sum.eval s.value? []
  match result with
  | .ok (v, assigned) =>
    for (name, n) in assigned.reverse do
      assign name (Octets.ofInt n.toInt)
    return Octets.ofInt v.toInt
  | .error fault => die (fault.message body)

/-- The complaint about a parameter without a value. -/
def missing (name words : Octets) (orEmpty : Bool) : Octets :=
  if words.isEmpty then
    name ++ Octets.ofText (if orEmpty then ": parameter not set or null" else ": parameter not set")
  else name ++ [':', ' '] ++ words

mutual

/-- The atoms of a word. -/
def word (substitute : Substitute) : Word → Act (List Atom)
  | [] => return []
  | p :: rest => do
    let front ← piece substitute p
    return front ++ (← word substitute rest)

/-- The atoms of a piece. -/
def piece (substitute : Substitute) : Piece → Act (List Atom)
  | .text quoted t =>
    return if quoted && t.isEmpty then [.blank] else t.map fun c => .mark ⟨c, quoted⟩ false
  | .command quoted script => do return value quoted (chomp (← substitute script))
  | .arithmetic quoted body => do
    let inside := text (← word substitute body)
    return value quoted (← compute inside)
  | .badParameter => die (Octets.ofText "Bad substitution")
  | .parameter quoted name form argument => do
    let s ← get
    let several := name = ['@'] || name = ['*']
    let joined := Octets.join (s.separators.take 1) s.parameters
    let bare : Option Octets :=
      if several then if s.parameters.isEmpty then none else some joined else s.value? name
    let whole : List Atom :=
      if name = ['@'] || (several && !quoted) then values quoted s.parameters
      else value quoted (bare.getD [])
    let absent (orEmpty : Bool) : Bool :=
      match bare with
      | none => true
      | some v => orEmpty && v.isEmpty
    match form with
    | .value =>
      if bare.isNone && s.nounset && !several then die (missing name [] false)
      else return whole
    | .length => return value quoted (Octets.ofNat (bare.getD []).length)
    | .orElse orEmpty =>
      if absent orEmpty then
        let atoms ← word substitute argument
        return if quoted then .blank :: atoms else atoms
      else return whole
    | .andThen orEmpty =>
      if absent orEmpty then return if quoted then [.blank] else []
      else
        let atoms ← word substitute argument
        return if quoted then .blank :: atoms else atoms
    | .orAssign orEmpty =>
      if absent orEmpty then
        let t := text (← word substitute argument)
        if isName name then
          assign name t
          return value quoted t
        else die (name ++ Octets.ofText ": bad variable name")
      else return whole
    | .orFail orEmpty =>
      if absent orEmpty then
        let words := text (← word substitute argument)
        die (missing name words orEmpty)
      else return whole
    | .dropFront longest =>
      let pattern := marks (← word substitute argument)
      return value quoted (Pattern.dropFront longest pattern (bare.getD []))
    | .dropBack longest =>
      let pattern := marks (← word substitute argument)
      return value quoted (Pattern.dropBack longest pattern (bare.getD []))

end

-- ================================================================ fields

/-- The fields of atoms. `field` is the one begun, latest mark first;
`spaced` says that the last one ended at a blank, so that a separator may
follow without ending another. -/
def fields (separators : Octets) (spaced : Bool) (field : Option (List Mark)) :
    List Atom → List (List Mark)
  | [] => (field.map List.reverse).toList
  | .boundary :: rest => (field.map List.reverse).toList ++ fields separators false none rest
  | .blank :: rest => fields separators false (some (field.getD [])) rest
  | .mark m splits :: rest =>
    if splits && separators.contains m.char then
      let isSpace := m.char = ' ' || m.char = '\t' || m.char = '\n'
      match field with
      | some f => f.reverse :: fields separators isSpace none rest
      | none =>
        if isSpace then fields separators spaced none rest
        else if spaced then fields separators false none rest
        else [] :: fields separators false none rest
    else fields separators false (some (m :: field.getD [])) rest

/-- A field as texts: the files that it matches, or what it spells. -/
def fieldTexts (s : State) (field : List Mark) : List Octets :=
  if Pattern.isGlob field then
    match Pattern.glob s.files s.working field with
    | [] => [Mark.text field]
    | found => found
  else [Mark.text field]

/-- A word that begins with a tilde, with the home directory in its place. -/
def homeward (s : State) (w : Word) : Word :=
  match w with
  | .text false ('~' :: t) :: rest =>
    if t.isEmpty && rest.isEmpty || t.head? = some '/' then
      match s.value? "HOME".toList with
      | some home => .text true home :: .text false t :: rest
      | none => w
    else w
  | _ => w

/-- The arguments that a word comes to. -/
def arguments (substitute : Substitute) (w : Word) : Act (List Octets) := do
  let w := homeward (← get) w
  let atoms ← word substitute w
  let s ← get
  return (fields s.separators false none atoms).flatMap (fieldTexts s)

/-- The single text that a word comes to. -/
def single (substitute : Substitute) (w : Word) : Act Octets := do
  let w := homeward (← get) w
  return text (← word substitute w)

/-- The pattern that a word comes to. -/
def pattern (substitute : Substitute) (w : Word) : Act (List Mark) := do
  return marks (← word substitute w)

end Expansion

end SamScript.Machine.Shell
