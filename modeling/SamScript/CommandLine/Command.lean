/-
The commands, and how they are read from a command line: the name of the
command first, then one file and options in any order. A request for help
counts from where it stands; words that mean nothing count only at the end.
-/
import SamScript.CommandLine.Word

namespace SamScript

/-- What can be done with a program. -/
inductive Command where
  /-- Runs it, and shows what its global names stand for. -/
  | run (file : String) (config : Option String) (json : Bool)
  /-- Looks for errors in its text. -/
  | check (file : String) (json : Bool)
  /-- Shows its tree. -/
  | tree (file : String)
  deriving DecidableEq, Repr

namespace CommandLine

/-- How commands are written. -/
def usage : String :=
  "usage: sam run FILE [--config FILE] [--json]\n"
    ++ "       sam check FILE [--json]\n"
    ++ "       sam tree FILE\n"

/-- Why a command line is no command. -/
inductive Refusal where
  | usage
  /-- It asks for help. -/
  | help
  deriving DecidableEq, Repr

-- =========================================================== what follows

/-- What has been read behind the name of a command. -/
structure Gathered where
  file : Option String := none
  config : Option String := none
  json : Bool := false
  /-- There were words that mean nothing. -/
  surplus : Bool := false

namespace Gathered

/-- Takes an option and its value, if it has one. -/
def set (g : Gathered) (value : Option String) : Switch → Gathered
  | .config => { g with config := value }
  | .json => { g with json := true }
  | .help => g

/-- Takes options that have all they need. -/
def setAll (g : Gathered) (switches : List Switch) (value : Option String) (surplus : Bool) :
    Except Refusal Gathered :=
  if switches.contains .help then .error .help
  else
    let g := switches.foldl (fun g s => g.set value s) g
    .ok { g with surplus := g.surplus || surplus }

/-- Whether the last of some options still needs its value. -/
def wantsValue (switches : List Switch) (value : Option String) : Bool :=
  value.isNone && switches.getLast?.any (·.takesValue)

/-- Takes the words one after the other. The first plain word is the file,
and takes a separator beside it along. -/
def read (g : Gathered) : List Word → Except Refusal Gathered
  | [] => .ok g
  | .plain text :: rest =>
    if g.file.isSome then read { g with surplus := true } rest
    else
      match rest with
      | .separator :: rest => read { g with file := some text } rest
      | rest => read { g with file := some text } rest
  | .separator :: rest =>
    match rest with
    | .plain text :: rest =>
      if g.file.isSome then read { g with surplus := true } rest
      else read { g with file := some text } rest
    | rest => read { g with surplus := true } rest
  | .unknown :: rest => read { g with surplus := true } rest
  | .wrong :: _ => .error .usage
  | .switches all value surplus :: rest =>
    if wantsValue all value then
      match rest with
      | .plain text :: rest => do
        let g ← g.setAll all (some text) surplus
        g.read rest
      | _ => .error .usage
    else do
      let g ← g.setAll all value surplus
      g.read rest

end Gathered

-- =============================================================== commands

/-- The names of the commands, with the options that each of them takes. -/
def commands : List (String × List Switch) :=
  [("run", [.help, .config, .json]), ("check", [.help, .json]), ("tree", [.help])]

/-- The command of a name. -/
def commandOf? (name file : String) (config : Option String) (json : Bool) : Option Command :=
  match name with
  | "run" => some (.run file config json)
  | "check" => some (.check file json)
  | "tree" => some (.tree file)
  | _ => none

/-- Reads what follows the name of a command. -/
def commandNamed (surplus : Bool) (name : String) (arguments : List String) :
    Except Refusal Command := do
  let some switches := commands.lookup name | throw .usage
  let some words := Word.all? switches arguments | throw .usage
  let g ← Gathered.read { surplus } words
  if g.surplus then throw .usage
  let some file := g.file | throw .usage
  let some command := commandOf? name file g.config g.json | throw .usage
  return command

/-- Reads a command line from the name of the command on; options that there
are not may stand before it. -/
def command (surplus : Bool) : List String → Except Refusal Command
  | [] => .error .usage
  | text :: rest =>
    match Word.ofText? [.help] text with
    | some (.plain name) => commandNamed surplus name rest
    | some (.switches _ _ _) => .error .help
    | some .unknown => command true rest
    | _ => .error .usage

end CommandLine

/-- The command that a command line is. -/
def Command.ofArguments (arguments : List String) : Except CommandLine.Refusal Command :=
  CommandLine.command false arguments

end SamScript
