/-
The command language of the shell: words with the expansions in them,
redirections, and commands. The script of a command substitution stays text
until it is run.
-/
import SamScript.Machine.Octets

namespace SamScript.Machine.Shell

/-- What happens to the value of a parameter. With `orEmpty`, an empty value
counts as none. -/
inductive Form where
  | value
  | length
  /-- The word, where there is no value. -/
  | orElse (orEmpty : Bool)
  /-- The word, which becomes the value, where there is none. -/
  | orAssign (orEmpty : Bool)
  /-- The word, where there is a value. -/
  | andThen (orEmpty : Bool)
  /-- A complaint in the words of the word, where there is no value. -/
  | orFail (orEmpty : Bool)
  /-- Without its shortest or longest beginning that the word matches. -/
  | dropFront (longest : Bool)
  /-- Without its shortest or longest end that the word matches. -/
  | dropBack (longest : Bool)
  deriving DecidableEq, Repr

/-- A part of a word. What comes from a quoted part is not taken apart. -/
inductive Piece where
  | text (quoted : Bool) (t : Octets)
  | parameter (quoted : Bool) (name : Octets) (form : Form) (word : List Piece)
  | command (quoted : Bool) (script : Octets)
  | arithmetic (quoted : Bool) (body : List Piece)
  /-- A parameter in braces that names none. -/
  | badParameter

/-- A word. -/
abbrev Word := List Piece

/-- What a redirection connects a channel with. -/
inductive Direction where
  | input (path : Word)
  | output (path : Word)
  | append (path : Word)
  /-- The channel of a number, or none for a dash. -/
  | copy (channel : Word)
  | document (text : Word)

structure Redirection where
  channel : Nat
  direction : Direction

/-- A command. Each knows the line it begins on where a complaint names it. -/
inductive Command where
  | simple (line : Nat) (assignments : List (Octets × Word)) (words : List Word)
      (redirections : List Redirection)
  | pipeline (negated : Bool) (parts : List Command)
  | and (first second : Command)
  | or (first second : Command)
  | sequence (commands : List Command)
  | background (command : Command)
  | subshell (command : Command)
  | conditional (test consequence : Command) (alternative : Option Command)
  | loop (whileTrue : Bool) (test body : Command)
  | each (variable_ : Octets) (words : Option (List Word)) (body : Command)
  | choose (word : Word) (branches : List (List Word × Command))
  | define (name : Octets) (body : Command)
  | redirected (line : Nat) (command : Command) (redirections : List Redirection)

/-- The command that does nothing. -/
def Command.nothing : Command :=
  .sequence []

/-- The smallest parts of a script. -/
inductive Lexeme where
  | word (w : Word)
  | operator (text : String)
  /-- A number right before a redirection. -/
  | channel (n : Nat)
  /-- A document that stands below its line, which of them it is, and its
  text. -/
  | document (index : Nat) (text : Word)
  | newline
  /-- The script cannot be read on. -/
  | fault (message : String)

/-- A part of a script with its line. -/
structure Placed where
  line : Nat
  lexeme : Lexeme

/-- The text of a word that is plain text, as reserved words and names are. -/
def Word.plain? : Word → Option Octets
  | [.text false t] => some t
  | _ => none

end SamScript.Machine.Shell
