/-
What a running shell knows, and what all programs of the machine share: the
files, the texts that were written and those that wait to be read. A step of
a shell may end more than itself; how much, its `Flow` says.
-/
import SamScript.Machine.Files
import SamScript.Machine.Shell.Syntax

namespace SamScript.Machine.Shell

/-- A variable. -/
structure Variable where
  value : Option Octets
  exported : Bool := false
  constant : Bool := false

/-- Where a channel leads. -/
inductive Channel where
  /-- To one of the texts that are being written. -/
  | sink (index : Nat)
  /-- From one of the texts that wait to be read. -/
  | source (index : Nat)
  /-- To the end of a file. -/
  | file (route : Route)
  | null

/-- How far the end of a step reaches. -/
inductive Flow where
  /-- The end of so many loops. -/
  | broken (loops : Nat)
  /-- The end of a turn of the last of so many loops. -/
  | continued (loops : Nat)
  /-- The end of a function. -/
  | returned
  /-- The end of the shell. -/
  | exited
  /-- The end of the shell and of all that it is a part of, by a signal. -/
  | killed (signal : Nat)

/-- The state of a shell. -/
structure State where
  files : Files
  /-- What was written to each sink, the latest first. -/
  sinks : Array (List Octets) := #[]
  /-- What is left to be read of each source. -/
  sources : Array Octets := #[]
  working : Route
  bindings : List (Octets × Variable) := []
  functions : List (Octets × Command) := []
  traps : List (Octets × Octets) := []
  /-- What the shell was started as. -/
  name : Octets
  parameters : List Octets := []
  channels : List (Nat × Channel)
  status : Nat := 0
  line : Nat := 1
  loops : Nat := 0
  /-- For each function that is running, the variables it hides. -/
  hidden : List (List (Octets × Option Variable)) := []
  /-- A command that fails ends the shell. -/
  strict : Bool := false
  /-- A parameter without a value is an error. -/
  nounset : Bool := false
  /-- Commands are shown before they run. -/
  traced : Bool := false
  /-- Commands are read but not run. -/
  idle : Bool := false
  /-- A failure is expected here and ends nothing. -/
  tested : Bool := false
  /-- The signal that ended the last program that was started, if one did. -/
  signal : Option Nat := none

/-- A step of a shell. -/
abbrev Act := ExceptT Flow (StateM State)

-- =============================================================== channels

/-- Writes to a channel; a channel that leads nowhere swallows the text. -/
def write (channel : Nat) (text : Octets) : Act Unit := do
  if text.isEmpty then return
  match (← get).channels.lookup channel with
  | some (.sink i) => modify fun s => { s with sinks := s.sinks.modify i (text :: ·) }
  | some (.file route) => modify fun s => { s with files := s.files.append route text }
  | _ => return

/-- What is left to be read from a channel. -/
def State.pending (s : State) (channel : Nat) : Octets :=
  match s.channels.lookup channel with
  | some (.source i) => s.sources.getD i []
  | _ => []

/-- Leaves only some of what is left to be read from a channel. -/
def State.leave (s : State) (channel : Nat) (rest : Octets) : State :=
  match s.channels.lookup channel with
  | some (.source i) => { s with sources := s.sources.setIfInBounds i rest }
  | _ => s

/-- Connects a channel. -/
def State.connect (s : State) (channel : Nat) (target : Channel) : State :=
  { s with channels := (channel, target) :: s.channels.filter fun c => c.1 ≠ channel }

/-- Closes a channel. -/
def State.disconnect (s : State) (channel : Nat) : State :=
  { s with channels := s.channels.filter fun c => c.1 ≠ channel }

/-- A new sink. -/
def newSink : Act Nat := do
  let i := (← get).sinks.size
  modify fun s => { s with sinks := s.sinks.push [] }
  return i

/-- A new source with a text to be read. -/
def newSource (text : Octets) : Act Nat := do
  let i := (← get).sources.size
  modify fun s => { s with sources := s.sources.push text }
  return i

/-- What was written to a sink. -/
def State.written (s : State) (sink : Nat) : Octets :=
  (s.sinks.getD sink []).reverse.flatten

/-- Complains about something, with the name of the shell and the line. -/
def complain (words : Octets) : Act Unit := do
  let s ← get
  let place := s.name ++ [':', ' '] ++ Octets.ofNat s.line ++ [':', ' ']
  write 2 (place ++ words ++ ['\n'])

def complainText (words : String) : Act Unit :=
  complain (Octets.ofText words)

/-- Sets the status of the last command. -/
def finish (status : Nat) : Act Unit :=
  modify fun s => { s with status }

/-- Complains and ends the shell. -/
def die {α : Type} (words : Octets) : Act α := do
  complain words
  finish 2
  throw .exited

-- ============================================================== variables

/-- The number by which a shell knows itself. -/
def processNumber : Nat := 4321

namespace State

/-- The variable of a name. -/
def binding? (s : State) (name : Octets) : Option Variable :=
  s.bindings.lookup name

/-- Puts a variable in the place of the one of its name. -/
def put (s : State) (name : Octets) (v : Variable) : State :=
  { s with bindings := (name, v) :: s.bindings.filter fun p => p.1 ≠ name }

/-- Removes a variable. -/
def remove (s : State) (name : Octets) : State :=
  { s with bindings := s.bindings.filter fun p => p.1 ≠ name }

/-- The value of a parameter: a variable, an argument of the shell, or
something that the shell knows about itself. -/
def value? (s : State) (name : Octets) : Option Octets :=
  match name with
  | ['#'] => some (Octets.ofNat s.parameters.length)
  | ['?'] => some (Octets.ofNat s.status)
  | ['$'] => some (Octets.ofNat processNumber)
  | ['-'] => some (if s.strict then ['e'] else [])
  | ['!'] => none
  | c :: _ =>
    if c.isDigit then
      match (String.ofList name).toNat? with
      | some 0 => some s.name
      | some n => s.parameters[n - 1]?
      | none => none
    else (s.binding? name).bind Variable.value
  | [] => none

/-- The separators of fields. -/
def separators (s : State) : Octets :=
  match s.binding? "IFS".toList with
  | some v => v.value.getD []
  | none => [' ', '\t', '\n']

/-- The variables that programs started by the shell find. -/
def environment (s : State) : List (Octets × Octets) :=
  s.bindings.reverse.filterMap fun (name, v) =>
    if v.exported then v.value.map (name, ·) else none

end State

/-- Gives a variable a value. -/
def assign (name value : Octets) : Act Unit := do
  match (← get).binding? name with
  | some v =>
    if v.constant then die (name ++ Octets.ofText ": is read only")
    else modify fun s => s.put name { v with value := some value }
  | none => modify fun s => s.put name { value := some value }

end SamScript.Machine.Shell
