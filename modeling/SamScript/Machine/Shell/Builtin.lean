/-
The commands that the shell carries out itself and that need no other
command to be run for it. Some are part of the language: an error in one of
those ends the shell.
-/
import SamScript.Machine.Print
import SamScript.Machine.Shell.Lexer
import SamScript.Machine.Shell.Pattern
import SamScript.Machine.Shell.State
import SamScript.Machine.Test

namespace SamScript.Machine.Shell

namespace Builtin

/-- The commands that are part of the language. -/
def special : List String :=
  [":", ".", "break", "continue", "eval", "exec", "exit", "export", "readonly", "return", "set",
    "shift", "times", "trap", "unset"]

/-- A complaint of a command, which fails with a status. -/
def reject (name : String) (words : Octets) (status : Nat) : Act Unit := do
  complain (Octets.ofText (name ++ ": ") ++ words)
  finish status

/-- A complaint of a command that is part of the language. -/
def abort {α : Type} (name : String) (words : Octets) : Act α :=
  die (Octets.ofText (name ++ ": ") ++ words)

/-- A number that an argument has to be. -/
def number (name : String) (a : Octets) : Act Nat :=
  match (String.ofList a).toNat? with
  | some n => if a.all Char.isDigit then return n
      else abort name (Octets.ofText "Illegal number: " ++ a)
  | none => abort name (Octets.ofText "Illegal number: " ++ a)

-- ============================================================== printing

def echo (args : List Octets) : Act Unit := do
  write 1 (Echo.run .builtin args)
  finish 0

def printf (args : List Octets) : Act Unit := do
  let print (format : Octets) (rest : List Octets) : Act Unit := do
    let p := Printf.run .builtin format rest
    write 1 p.out
    for words in p.complaints do
      complain (Octets.ofText "printf: " ++ words)
    finish p.status
  match args with
  | [] | [['-', '-']] => reject "printf" (Octets.ofText "usage: printf format [arg ...]") 2
  | ['-', '-'] :: format :: rest => print format rest
  | format :: rest =>
    match format with
    | '-' :: c :: _ => reject "printf" (Octets.ofText "Illegal option -" ++ [c]) 2
    | _ => print format rest

def pwd (_ : List Octets) : Act Unit := do
  let here := (← get).working
  write 1 (['/'] ++ Octets.join ['/'] here ++ ['\n'])
  finish 0

-- ============================================================ conditions

def test (name : String) (args : List Octets) : Act Unit := do
  let s ← get
  match Test.run s.files s.working args with
  | .ok b => finish (if b then 0 else 1)
  | .error words => reject name words 2

def bracket (args : List Octets) : Act Unit :=
  if args.getLast? = some [']'] then test "[" args.dropLast
  else reject "[" (Octets.ofText "missing ]") 2

-- ================================================================== flow

def exit (args : List Octets) : Act Unit := do
  if let a :: _ := args then
    finish ((← number "exit" a) % 256)
  throw .exited

def return_ (args : List Octets) : Act Unit := do
  if let a :: _ := args then
    finish (← number "return" a)
  throw .returned

/-- Leaves so many loops, but no more than there are. -/
def leaveLoops (name : String) (flow : Nat → Flow) (args : List Octets) : Act Unit := do
  let n ← match args with
    | a :: _ => number name a
    | [] => pure 1
  finish 0
  let loops := (← get).loops
  if loops ≠ 0 then throw (flow (min n loops))

-- ============================================================= variables

/-- The name and the value of an argument that gives a variable a value. -/
def definition (a : Octets) : Octets × Option Octets :=
  match a.dropWhile (· ≠ '=') with
  | _ :: value => (a.takeWhile (· ≠ '='), some value)
  | [] => (a, none)

/-- Marks variables, and gives values to those that come with one. -/
def markVariables (name : String) (change : Variable → Variable) (args : List Octets) :
    Act Unit := do
  for a in args.filter (· ≠ ['-', 'p']) do
    let (x, value) := definition a
    if !isName x then abort name (x ++ Octets.ofText ": bad variable name")
    if let some v := value then assign x v
    modify fun s => s.put x (change ((s.binding? x).getD { value := none }))
  finish 0

def unset (args : List Octets) : Act Unit := do
  let functions := args.head? = some ['-', 'f']
  for x in args.filter (fun a => a ≠ ['-', 'f'] && a ≠ ['-', 'v']) do
    if !isName x then abort "unset" (x ++ Octets.ofText ": bad variable name")
    if functions then
      modify fun s => { s with functions := s.functions.filter fun f => f.1 ≠ x }
    else if ((← get).binding? x).any Variable.constant then
      abort "unset" (x ++ Octets.ofText ": is read only")
    else modify fun s => s.remove x
  finish 0

def shift (args : List Octets) : Act Unit := do
  let n ← match args with
    | a :: _ => number "shift" a
    | [] => pure 1
  if n > (← get).parameters.length then abort "shift" (Octets.ofText "can't shift that many")
  modify fun s => { s with parameters := s.parameters.drop n }
  finish 0

/-- Switches an option. -/
def switch (on : Bool) (c : Char) : Act Unit :=
  if c = 'e' then modify fun s => { s with strict := on }
  else if c = 'u' then modify fun s => { s with nounset := on }
  else if c = 'x' then modify fun s => { s with traced := on }
  else if ['f', 'v', 'n', 'a', 'b', 'C', 'm'].contains c then return
  else abort "set" (Octets.ofText "Illegal option -" ++ [c])

/-- Switches options and sets the arguments of the shell. -/
def set_ : List Octets → Act Unit
  | ['-', '-'] :: rest => do
    modify fun s => { s with parameters := rest }
    finish 0
  | ['-', 'o'] :: name :: _ => abort "set" (Octets.ofText "Illegal option -o " ++ name)
  | ('-' :: c :: cs) :: rest => do
    for c in c :: cs do switch true c
    if rest.isEmpty then finish 0 else set_ rest
  | ('+' :: c :: cs) :: rest => do
    for c in c :: cs do switch false c
    if rest.isEmpty then finish 0 else set_ rest
  | [] => finish 0
  | args => do
    modify fun s => { s with parameters := args }
    finish 0

/-- Hides variables for as long as the function runs. -/
def local_ (args : List Octets) : Act Unit := do
  match (← get).hidden with
  | [] => abort "local" (Octets.ofText "not in a function")
  | frame :: outer =>
    let mut frame := frame
    for a in args do
      let (x, value) := definition a
      let before := (← get).binding? x
      if (frame.lookup x).isNone then frame := (x, before) :: frame
      modify fun s => { s with hidden := frame :: outer }
      match value with
      | some v => assign x v
      | none => modify fun s => s.put x { value := none, exported := before.any Variable.exported }
    finish 0

-- =============================================================== reading

/-- The first line of a text, its escaped characters marked as quoted, and
what comes after it; the flag says whether the line was ended. -/
def inputLine (raw : Bool) : Octets → List Mark × Octets × Bool
  | [] => ([], [], false)
  | '\n' :: rest => ([], rest, true)
  | '\\' :: c :: rest =>
    if raw then
      let (line, rest, ended) := inputLine raw (c :: rest)
      (⟨'\\', false⟩ :: line, rest, ended)
    else
      let (line, rest, ended) := inputLine raw rest
      (if c = '\n' then line else ⟨c, true⟩ :: line, rest, ended)
  | c :: rest =>
    let (line, rest, ended) := inputLine raw rest
    (⟨c, false⟩ :: line, rest, ended)

/-- Splits a line into so many fields at most; the last one takes the rest. -/
def inputFields (separators : Octets) : Nat → List Mark → List Octets
  | 0, _ => []
  | n + 1, line =>
    let isSeparator (m : Mark) : Bool := !m.quoted && separators.contains m.char
    let isSpace (m : Mark) : Bool := isSeparator m && (m.char = ' ' || m.char = '\t' || m.char = '\n')
    let line := line.dropWhile isSpace
    if n = 0 then [Mark.text (line.reverse.dropWhile isSpace).reverse]
    else
      let after := (line.dropWhile fun m => !isSeparator m).dropWhile isSpace
      let after := match after with
        | m :: rest => if isSeparator m then rest else after
        | [] => []
      Mark.text (line.takeWhile fun m => !isSeparator m) :: inputFields separators n after

def read (args : List Octets) : Act Unit := do
  let options := args.takeWhile fun a => a.head? = some '-' && a.length > 1
  let names := args.dropWhile fun a => a.head? = some '-' && a.length > 1
  if names.isEmpty then reject "read" (Octets.ofText "arg count") 2
  else
    let s ← get
    let (line, rest, ended) := inputLine (options.any (·.contains 'r')) (s.pending 0)
    set (s.leave 0 rest)
    for (x, v) in names.zip (inputFields s.separators names.length line) do
      assign x v
    finish (if ended then 0 else 1)

-- ============================================================ directories

def cd (args : List Octets) : Act Unit := do
  let s ← get
  let path := match args with
    | [] => (s.value? "HOME".toList).getD []
    | ['-'] :: _ => (s.value? "OLDPWD".toList).getD []
    | a :: _ => a
  match s.files.find s.working path with
  | .ok (route, .directory) => do
    let text (r : Route) : Octets := ['/'] ++ Octets.join ['/'] r
    assign "OLDPWD".toList (text s.working)
    assign "PWD".toList (text route)
    modify fun s => { s with working := route }
    finish 0
  | _ => reject "cd" (Octets.ofText "can't cd to " ++ path) 2

-- =============================================================== signals

/-- The names of the signals, by their numbers. -/
def signals : List (String × Nat) :=
  [("EXIT", 0), ("HUP", 1), ("INT", 2), ("QUIT", 3), ("ILL", 4), ("TRAP", 5), ("ABRT", 6),
    ("BUS", 7), ("FPE", 8), ("KILL", 9), ("USR1", 10), ("SEGV", 11), ("USR2", 12), ("PIPE", 13),
    ("ALRM", 14), ("TERM", 15), ("STKFLT", 16), ("CHLD", 17), ("CONT", 18), ("STOP", 19),
    ("TSTP", 20), ("TTIN", 21), ("TTOU", 22), ("URG", 23), ("XCPU", 24), ("XFSZ", 25),
    ("VTALRM", 26), ("PROF", 27), ("WINCH", 28), ("IO", 29), ("PWR", 30), ("SYS", 31)]

/-- The number of a signal, by its number or its name. -/
def signal? (a : Octets) : Option Nat :=
  let name := String.ofList a
  if !a.isEmpty && a.all Char.isDigit then name.toNat?.filter (· < 65)
  else signals.lookup name

/-- What the shell writes when a signal has ended a program. -/
def obituary? (signal : Nat) : Option String :=
  [(1, "Hangup"), (3, "Quit"), (4, "Illegal instruction"), (5, "Trace/breakpoint trap"),
    (6, "Aborted"), (7, "Bus error"), (8, "Floating point exception"), (9, "Killed"),
    (10, "User defined signal 1"), (11, "Segmentation fault"), (12, "User defined signal 2"),
    (14, "Alarm clock"), (15, "Terminated")].lookup signal

/-- The signals that end nothing by themselves. -/
def harmless : List Nat := [0, 17, 18, 23, 28]

/-- Sets what is done about signals. -/
def trap (args : List Octets) : Act Unit := do
  let args := match args with
    | ['-', '-'] :: rest => rest
    | args => args
  match args with
  | [] => finish 0
  | action :: names =>
    let isSignal := names.isEmpty
    let names := if isSignal then [action] else names
    for name in names do
      match signal? name with
      | none => do
        complain (Octets.ofText "trap: " ++ name ++ Octets.ofText ": bad trap")
        finish 1
        return
      | some n =>
        let key := Octets.ofNat n
        modify fun s => { s with traps := s.traps.filter fun t => t.1 ≠ key }
        if !(isSignal || action = ['-']) then
          modify fun s => { s with traps := (key, action) :: s.traps }
    finish 0

/-- The signal that a command is to send, and to whom. -/
def signalArguments (args : List Octets) : Option Nat × List Octets :=
  match args with
  | ['-', 's'] :: name :: rest => (signal? name, rest)
  | ['-', '-'] :: rest => (some 15, rest)
  | ('-' :: c :: cs) :: rest => (signal? (c :: cs), rest)
  | args => (some 15, args)

/-- Whether a receiver is the shell that sends. -/
def isSelf (a : Octets) : Bool :=
  a = Octets.ofNat processNumber || a = ['0'] || a = '-' :: Octets.ofNat processNumber

end Builtin

end SamScript.Machine.Shell
