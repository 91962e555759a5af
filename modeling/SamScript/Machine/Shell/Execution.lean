/-
Running commands. All of them are carried out one after the other: the parts
of a pipe, too, each reading what the one before has written. Running is
bounded by a number of steps, since a script may run for ever; a shell that
has used them up is ended as if by a signal.
-/
import SamScript.Machine.Shell.Builtin
import SamScript.Machine.Shell.Expansion
import SamScript.Machine.Shell.Parser

namespace SamScript.Machine.Shell

/-- How many commands a script may run. -/
def patience : Nat := 50000

/-- What a program is started with: the words of its command line. -/
structure Start where
  tool : Tool
  arguments : List Octets

/-- How many interpreters may stand one behind the other. -/
def longestChain : Nat := 5

/-- Why a file cannot be started as a program. A file that begins with no
interpreter line is no program, but the shell may still read it. -/
inductive StartRefusal where
  | errno (e : Errno)
  | plain (bytes : Octets)

/-- The words of an interpreter line: the interpreter, and perhaps one
argument. -/
def interpreterLine? (bytes : Octets) : Option (Octets × Option Octets) :=
  match bytes with
  | '#' :: '!' :: rest =>
    let line := (rest.takeWhile (· ≠ '\n')).dropWhile isBlank
    let line := (line.reverse.dropWhile isBlank).reverse
    let interpreter := line.takeWhile fun c => !isBlank c
    let argument := (line.dropWhile fun c => !isBlank c).dropWhile isBlank
    if interpreter.isEmpty then none
    else some (interpreter, if argument.isEmpty then none else some argument)
  | _ => none

/-- What starting the file of a path comes to, an interpreter followed to the
program that it is. -/
def resolve (files : Files) (working : Route) :
    Nat → Octets → List Octets → Except StartRefusal Start
  | 0, _, _ => .error (.errno .tooManyLinks)
  | n + 1, path, arguments =>
    match files.find working path with
    | .error e => .error (.errno e)
    | .ok (_, item) =>
      match item with
      | .tool t => .ok ⟨t, arguments⟩
      | .directory | .null => .error (.errno .accessDenied)
      | .file bytes executable =>
        if !executable then .error (.errno .accessDenied)
        else
          match interpreterLine? bytes with
          | some (interpreter, argument) =>
            resolve files working n interpreter
              ([interpreter] ++ argument.toList ++ [path] ++ arguments.drop 1)
          | none => .error (.plain bytes)

-- =============================================================== helpers

/-- Takes a step and undoes a change of the state afterwards, however the
step ends. -/
def restoring {α : Type} (undo : State → State → State) (x : Act α) : Act α := do
  let before ← get
  let (r, after) := x.run before
  set (undo before after)
  liftExcept r
where
  liftExcept {α : Type} : Except Flow α → Act α
    | .ok a => return a
    | .error e => throw e

/-- Runs in a shell of its own. What it wrote stays; what else it changed
does not. -/
def inSubshell (x : Act Unit) : Act Unit := do
  let before ← get
  let (r, after) := (x.run { before with loops := 0, traps := [] })
  set { before with
    files := after.files
    sinks := after.sinks
    sources := after.sources
    status := after.status }
  match r with
  | .error (.killed signal) => throw (.killed signal)
  | _ => return

/-- Does not end the shell when a command in it fails. -/
def tested {α : Type} (x : Act α) : Act α :=
  restoring (fun before after => { after with tested := before.tested })
    (modify (fun s => { s with tested := true }) >>= fun _ => x)

/-- Shows a simple command before it runs, if the shell is asked to. -/
def trace (assigned : List (Octets × Octets)) (arguments : List Octets) : Act Unit := do
  if (← get).traced then
    let words := assigned.map (fun (x, v) => x ++ ['='] ++ v) ++ arguments
    write 2 (['+', ' '] ++ Octets.join [' '] words ++ ['\n'])

/-- Ends a strict shell after a failure. -/
def checkStatus : Act Unit := do
  let s ← get
  if s.strict && !s.tested && s.status ≠ 0 then throw .exited

/-- The directories that programs are looked for in. -/
def State.searchPath (s : State) : List Octets :=
  match (s.binding? "PATH".toList).bind Variable.value with
  | some path => Octets.split ':' path
  | none => []

/-- The path of a program of some name: the first one that can be started,
else the first that is there. -/
def programPath (s : State) (name : Octets) : Option Octets :=
  if name.contains '/' then some name
  else
    let candidates := s.searchPath.map fun d => if d.isEmpty then name else d ++ ['/'] ++ name
    let found := candidates.filter fun p => (s.files.find s.working p).toOption.isSome
    found.find? fun p => match (s.files.find s.working p).toOption with
      | some (_, .file _ true) | some (_, .tool _) => true
      | _ => false

-- ========================================================= redirections

/-- Connects the channels of a command as its redirections ask for. The
result says whether all could be. -/
def redirect (substitute : Expansion.Substitute) : List Redirection → Act Bool
  | [] => return true
  | r :: rest => do
    let refuse (words : Octets) : Act Bool := do
      complain words
      finish 2
      return false
    let cannot (verb : String) (path : Octets) (reason : String) : Act Bool :=
      refuse (Octets.ofText ("cannot " ++ verb ++ " ") ++ path ++ Octets.ofText (": " ++ reason))
    let toFile (path : Octets) (fresh : Bool) : Act Bool := do
      let s ← get
      match s.files.target s.working path with
      | .error .notFound | .error .notDirectory => cannot "create" path "Directory nonexistent"
      | .error e => cannot "create" path e.text
      | .ok route =>
        match s.files.item? route with
        | some .directory => cannot "create" path "Is a directory"
        | some .null => do
          modify fun s => s.connect r.channel .null
          redirect substitute rest
        | item =>
          let executable := match item with
            | some (.file _ x) => x
            | _ => false
          if fresh || item.isNone then
            modify fun s => { s with files := s.files.put route (.file [] executable) }
          modify fun s => s.connect r.channel (.file route)
          redirect substitute rest
    let toChannel (n : Nat) : Act Bool := do
      match (← get).channels.lookup n with
      | some c => do
        modify fun s => s.connect r.channel c
        redirect substitute rest
      | none => refuse (Octets.ofNat n ++ Octets.ofText ": Bad file descriptor")
    match r.direction with
    | .input w =>
      let path ← Expansion.single substitute w
      let s ← get
      if path = "/dev/stdin".toList then toChannel 0
      else
        match s.files.read s.working path with
        | .error .notFound | .error .notDirectory => cannot "open" path "No such file"
        | .error .isDirectory | .ok _ =>
          let source ← newSource ((s.files.read s.working path).toOption.getD [])
          modify fun s => s.connect r.channel (.source source)
          redirect substitute rest
        | .error e => cannot "open" path e.text
    | .output w =>
      let path ← Expansion.single substitute w
      if path = "/dev/stdout".toList then toChannel 1
      else if path = "/dev/stderr".toList then toChannel 2
      else toFile path true
    | .append w => do
      let path ← Expansion.single substitute w
      toFile path false
    | .copy w =>
      let t ← Expansion.single substitute w
      if t = ['-'] then do
        modify fun s => s.disconnect r.channel
        redirect substitute rest
      else if !t.isEmpty && t.all Char.isDigit then
        toChannel ((String.ofList t).toNat?.getD 0)
      else die (Octets.ofText "Syntax error: Bad fd number")
    | .document w => do
      let text ← Expansion.single substitute w
      let source ← newSource text
      modify fun s => s.connect r.channel (.source source)
      redirect substitute rest

/-- Runs with some redirections, and takes them back afterwards. -/
def withRedirections (substitute : Expansion.Substitute) (rs : List Redirection) (x : Act Unit) :
    Act Unit :=
  if rs.isEmpty then x
  else
    restoring (fun before after => { after with channels := before.channels }) do
      if ← redirect substitute rs then x

-- ======================================================== known programs

/-- The complaint of a program of its own about something. -/
def programComplaint (name words : Octets) : Act Unit :=
  write 2 (name ++ [':', ' '] ++ words ++ ['\n'])

/-- A name as programs show it: in quotes if it is not plain. -/
def shownName (name : Octets) : Octets :=
  let plain (c : Char) : Bool := c.isAlphanum || "-_./,+@%^=:".toList.contains c || c.toNat ≥ 0x80
  if !name.isEmpty && name.all plain then name
  else if name.contains '\'' && !name.contains '"' then ['"'] ++ name ++ ['"']
  else ['\''] ++ name ++ ['\'']

/-- Writes files one after the other; without any, what it can read. -/
def cat (name : Octets) (args : List Octets) : Act Unit := do
  finish 0
  for a in if args.isEmpty then [['-']] else args do
    let s ← get
    if a = ['-'] then do
      let text := s.pending 0
      set (s.leave 0 [])
      write 1 text
    else
      match s.files.read s.working a with
      | .ok text => write 1 text
      | .error e => do
        programComplaint name (shownName a ++ Octets.ofText (": " ++ e.text))
        finish 1

/-- The option that `cat` does not know, if there is one. -/
def unknownOption? (args : List Octets) : Option Char :=
  ((args.takeWhile (· ≠ ['-', '-'])).find? fun a =>
    a.head? = some '-' && a.length > 1 && a ≠ ['-', 'u']).bind (·[1]?)

/-- Runs a program that is not the shell. -/
def runTool (tool : Tool) (name : Octets) (args : List Octets) : Act Unit := do
  modify fun s => { s with signal := none }
  match tool with
  | .succeed => finish 0
  | .fail => finish 1
  | .echo => do
    write 1 (Echo.run .standalone args)
    finish 0
  | .printf =>
    let args := match args with
      | ['-', '-'] :: rest => rest
      | args => args
    match args with
    | [] => do
      programComplaint name (Octets.ofText "missing operand")
      write 2 (Octets.ofText "Try '" ++ name ++ Octets.ofText " --help' for more information.\n")
      finish 1
    | format :: rest => do
      let p := Printf.run .standalone format rest
      write 1 p.out
      for words in p.complaints do
        programComplaint name words
      finish p.status
  | .cat =>
    match unknownOption? args with
    | some c => do
      programComplaint name (Octets.ofText "invalid option -- '" ++ [c] ++ ['\''])
      write 2 (Octets.ofText "Try '" ++ name ++ Octets.ofText " --help' for more information.\n")
      finish 1
    | none =>
      let front := args.takeWhile (· ≠ ['-', '-'])
      cat name (front.filter (· ≠ ['-', 'u']) ++ args.drop (front.length + 1))
  | .shell => return

-- ============================================================== running

/-- What a shell is asked to do by its arguments. -/
structure Invocation where
  strict : Bool := false
  nounset : Bool := false
  traced : Bool := false
  /-- Scripts are read but not run. -/
  idle : Bool := false
  /-- The first argument that is no option is a script, not a file. -/
  script : Bool := false
  /-- The script is read from the input. -/
  fromInput : Bool := false
  operands : List Octets := []

/-- Reads the arguments of a shell; an option that there is not is named. -/
def Invocation.ofArguments (v : Invocation) : List Octets → Except Char Invocation
  | ['-', '-'] :: rest => .ok { v with operands := rest }
  | ('-' :: c :: cs) :: rest =>
    match (c :: cs).find? fun c => "ceusxfilvn".toList.all (· ≠ c) with
    | some c => .error c
    | none =>
      ofArguments { v with
        strict := v.strict || (c :: cs).contains 'e'
        nounset := v.nounset || (c :: cs).contains 'u'
        traced := v.traced || (c :: cs).contains 'x'
        idle := v.idle || (c :: cs).contains 'n'
        fromInput := v.fromInput || (c :: cs).contains 's'
        script := v.script || (c :: cs).contains 'c' } rest
  | rest => .ok { v with operands := rest }

/-- What a started program finds: the variables of its environment. -/
def environmentVariables (environment : List (Octets × Octets)) : List (Octets × Variable) :=
  environment.reverse.map fun (x, v) => (x, { value := some v, exported := true })

mutual

/-- Runs a command. -/
def exec : Nat → Command → Act Unit
  | 0, _ => throw (.killed 9)
  | n + 1, c =>
    match c with
    | .simple line assignments words redirections => do
      simple n line assignments words redirections
      checkStatus
    | .sequence cs => sequence n cs
    | .and a b => do
      tested (exec n a)
      if (← get).status = 0 then exec n b
    | .or a b => do
      tested (exec n a)
      if (← get).status ≠ 0 then exec n b
    | .pipeline negated parts => do
      if negated then
        tested (pipe n parts)
        modify fun s => { s with status := if s.status = 0 then 1 else 0 }
      else
        pipe n parts
        checkStatus
    | .background c => do
      inSubshell do
        let source ← newSource []
        modify fun s => s.connect 0 (.source source)
        exec n c
      finish 0
    | .subshell c => do
      inSubshell (exec n c)
      checkStatus
    | .conditional test consequence alternative => do
      tested (exec n test)
      if (← get).status = 0 then exec n consequence
      else
        match alternative with
        | some c => exec n c
        | none => finish 0
    | .loop whileTrue test body => do
      let last ← restoring (fun before after => { after with loops := before.loops }) do
        modify fun s => { s with loops := s.loops + 1 }
        turns n whileTrue test body 0
      finish last
    | .each x words body => do
      let values ← match words with
        | some ws => expandAll n ws
        | none => return_parameters
      finish 0
      restoring (fun before after => { after with loops := before.loops }) do
        modify fun s => { s with loops := s.loops + 1 }
        eachOf n x values body
    | .choose w branches => do
      let text ← Expansion.single (substitute n) w
      finish 0
      choose n text branches
    | .define name body => do
      modify fun s => { s with functions := (name, body) :: s.functions.filter fun f => f.1 ≠ name }
      finish 0
    | .redirected line c redirections => do
      modify fun s => { s with line }
      withRedirections (substitute n) redirections (exec n c)

/-- Runs commands one after the other. -/
def sequence : Nat → List Command → Act Unit
  | 0, _ => throw (.killed 9)
  | _, [] => return
  | n + 1, c :: rest => do
    exec n c
    sequence n rest

/-- The arguments of the shell. -/
def return_parameters : Act (List Octets) := do
  return (← get).parameters

/-- The turns of a loop with a test; the result is the status of the last
turn. -/
def turns : Nat → Bool → Command → Command → Nat → Act Nat
  | 0, _, _, _, _ => throw (.killed 9)
  | n + 1, whileTrue, test, body, last => do
    let turn : Act (Option Nat) := do
      tested (exec n test)
      if ((← get).status = 0) = whileTrue then
        exec n body
        return some (← get).status
      else return none
    match ← inLoop turn with
    | .inl (some status) => turns n whileTrue test body status
    | .inl none => return last
    | .inr true => turns n whileTrue test body 0
    | .inr false => return 0

/-- A turn of a loop. On the right is what broke it off: whether the loop
goes on. -/
def inLoop {α : Type} (turn : Act α) : Act (α ⊕ Bool) := do
  let (r, after) := turn.run (← get)
  set after
  match r with
  | .ok a => return .inl a
  | .error (.broken n) => if n ≤ 1 then return .inr false else throw (.broken (n - 1))
  | .error (.continued n) => if n ≤ 1 then return .inr true else throw (.continued (n - 1))
  | .error e => throw e

/-- The turns of a loop over words. -/
def eachOf : Nat → Octets → List Octets → Command → Act Unit
  | 0, _, _, _ => throw (.killed 9)
  | _, _, [], _ => return
  | n + 1, x, v :: rest, body => do
    assign x v
    match ← inLoop (exec n body) with
    | .inl _ => eachOf n x rest body
    | .inr true => eachOf n x rest body
    | .inr false => return

/-- Runs the first branch with a pattern that matches. -/
def choose : Nat → Octets → List (List Word × Command) → Act Unit
  | 0, _, _ => throw (.killed 9)
  | _, _, [] => return
  | n + 1, text, (patterns, body) :: rest => do
    if ← anyMatch n text patterns then exec n body
    else choose n text rest

def anyMatch : Nat → Octets → List Word → Act Bool
  | 0, _, _ => throw (.killed 9)
  | _, _, [] => return false
  | n + 1, text, w :: rest => do
    if Pattern.isMatch (← Expansion.pattern (substitute n) w) text then return true
    else anyMatch n text rest

/-- Runs the parts of a pipe, each in a shell of its own. -/
def pipe : Nat → List Command → Act Unit
  | 0, _ => throw (.killed 9)
  | _, [] => return
  | n + 1, [c] => inSubshell (exec n c)
  | n + 1, c :: rest => do
    let sink ← newSink
    inSubshell do
      modify fun s => s.connect 1 (.sink sink)
      exec n c
    let source ← newSource ((← get).written sink)
    restoring (fun before after => { after with channels := before.channels }) do
      modify fun s => s.connect 0 (.source source)
      pipe n rest

/-- The output of a script that is run in a shell of its own. -/
def substitute : Nat → Octets → Act Octets
  | 0, _ => throw (.killed 9)
  | n + 1, script => do
    let sink ← newSink
    finish 0
    inSubshell do
      modify fun s => s.connect 1 (.sink sink)
      lines n [] (read (← get).line script)
    return ((← get).written sink).filter (· ≠ '\x00')

/-- The arguments that words come to. -/
def expandAll : Nat → List Word → Act (List Octets)
  | 0, _ => throw (.killed 9)
  | _, [] => return []
  | n + 1, w :: rest => do
    let front ← Expansion.arguments (substitute n) w
    return front ++ (← expandAll n rest)

/-- Gives values to variables; the result is the values. -/
def assignAll : Nat → List (Octets × Word) → Act (List (Octets × Octets))
  | 0, _ => throw (.killed 9)
  | _, [] => return []
  | n + 1, (x, w) :: rest => do
    let v ← Expansion.single (substitute n) w
    assign x v
    return (x, v) :: (← assignAll n rest)

/-- Runs a simple command. -/
def simple : Nat → Nat → List (Octets × Word) → List Word → List Redirection → Act Unit
  | 0, _, _, _, _ => throw (.killed 9)
  | n + 1, line, assignments, words, redirections => do
    modify fun s => { s with line }
    let before := (← get).status
    modify fun s => { s with status := 0 }
    let arguments ← restoring (fun _ after => after) do
      modify fun s => { s with status := before }
      let ws ← expandAll n words
      return ws
    match arguments with
    | [] => do
      finish 0
      trace (← assignAll n assignments) arguments
      let status := (← get).status
      withRedirections (substitute n) redirections (finish status)
    | name :: args =>
      let isSpecial := Builtin.special.contains (String.ofList name)
      if name = "exec".toList then do
        trace (← assignAll n assignments) arguments
        if ← redirect (substitute n) redirections then
          match args with
          | [] => finish 0
          | program :: args => do
            external n true program args
            throw .exited
        else throw .exited
      else if isSpecial then do
        trace (← assignAll n assignments) arguments
        restoring (fun before after => { after with channels := before.channels }) do
          if ← redirect (substitute n) redirections then command n true name args
          else throw .exited
      else
        restoring (fun before after =>
          if assignments.isEmpty then after
          else { after with bindings := before.bindings }) do
        trace (← assignAll n assignments) arguments
        for (x, _) in assignments do
          modify fun s => s.put x { ((s.binding? x).getD { value := none }) with exported := true }
        withRedirections (substitute n) redirections (command n true name args)

/-- Runs what a name stands for: a function, a command of the shell, or a
program. -/
def command : Nat → Bool → Octets → List Octets → Act Unit
  | 0, _, _, _ => throw (.killed 9)
  | n + 1, functions, name, args => do
    let s ← get
    match if functions then s.functions.lookup name else none with
    | some body => call n body args
    | none =>
      match String.ofList name with
      | ":" | "true" => finish 0
      | "false" => finish 1
      | "echo" => Builtin.echo args
      | "printf" => Builtin.printf args
      | "pwd" => Builtin.pwd args
      | "test" => Builtin.test "test" args
      | "[" => Builtin.bracket args
      | "exit" => Builtin.exit args
      | "return" => Builtin.return_ args
      | "break" => Builtin.leaveLoops "break" .broken args
      | "continue" => Builtin.leaveLoops "continue" .continued args
      | "export" => Builtin.markVariables "export" (fun v => { v with exported := true }) args
      | "readonly" => Builtin.markVariables "readonly" (fun v => { v with constant := true }) args
      | "unset" => Builtin.unset args
      | "shift" => Builtin.shift args
      | "set" => Builtin.set_ args
      | "local" => Builtin.local_ args
      | "read" => Builtin.read args
      | "cd" => Builtin.cd args
      | "trap" => Builtin.trap args
      | "wait" | "times" => finish 0
      | "umask" => do
        if args.isEmpty then write 1 "0022\n".toList
        finish 0
      | "kill" => kill n args
      | "eval" => do
        finish 0
        let script := Octets.join [' '] args
        lines n (Octets.ofText "eval: ") (read (← get).line script)
      | "." =>
        match args with
        | [] => finish 0
        | path :: _ => do
          let s ← get
          let places := if path.contains '/' then [path]
            else s.searchPath.map fun d => if d.isEmpty then path else d ++ ['/'] ++ path
          match places.findSome? fun p => (s.files.read s.working p).toOption with
          | some script => do
            finish 0
            lines n [] (read 1 script)
          | none =>
            if path.contains '/' then
              Builtin.abort "." (Octets.ofText "cannot open " ++ path ++ Octets.ofText ": No such file")
            else Builtin.abort "." (path ++ Octets.ofText ": not found")
      | "command" =>
        match args with
        | [] => finish 0
        | ['-', 'v'] :: program :: _ =>
          if (s.functions.lookup program).isSome || Builtin.special.contains (String.ofList program)
              || ["echo", "printf", "true", "false", "test", "[", "read", "cd", "pwd", "kill",
                "command", "wait", "local", "umask"].contains (String.ofList program) then do
            write 1 (program ++ ['\n'])
            finish 0
          else
            match programPath s program with
            | some path =>
              if (s.files.find s.working path).toOption.isSome then do
                write 1 (path ++ ['\n'])
                finish 0
              else finish 127
            | none => finish 127
        | program :: args => command n false program args
      | _ => external n false name args

/-- Calls a function. -/
def call : Nat → Command → List Octets → Act Unit
  | 0, _, _ => throw (.killed 9)
  | n + 1, body, args => do
    let before ← get
    let (r, after) := (exec n body).run
      { before with parameters := args, hidden := [] :: before.hidden, loops := 0 }
    let shown := (after.hidden.headD []).foldl
      (fun s (x, v) => match v with
        | some v => s.put x v
        | none => s.remove x) after
    set { shown with
      parameters := before.parameters
      hidden := before.hidden
      loops := before.loops }
    match r with
    | .ok _ | .error .returned => return
    | .error e => throw e

/-- Sends a signal. A shell that sends one to itself ends by it, unless it
has set a trap. -/
def kill : Nat → List Octets → Act Unit
  | 0, _ => throw (.killed 9)
  | n + 1, args => do
    match Builtin.signalArguments args with
    | (none, _) =>
      Builtin.reject "kill" (Octets.ofText "Illegal option -" ++ ((args.headD []).drop 1).take 1) 2
    | (_, []) =>
      Builtin.reject "kill" (Octets.ofText ("Usage: kill [-s sigspec | -signum | -sigspec] "
        ++ "[pid | job]... or\nkill -l [exitstatus]")) 2
    | (some signal, receivers) =>
      match receivers.find? fun a => !(a.all fun c => c.isDigit || c = '-') with
      | some a => Builtin.reject "kill" (Octets.ofText "Illegal number: " ++ a) 2
      | none =>
        if receivers.all Builtin.isSelf then
          match (← get).traps.lookup (Octets.ofNat signal) with
          | some action => do
            finish 0
            if signal ≠ 9 then lines n [] (read (← get).line action) else throw (.killed signal)
          | none =>
            if Builtin.harmless.contains signal then finish 0 else throw (.killed signal)
        else Builtin.reject "kill" (Octets.ofText "No such process") 1

/-- Runs a program of its own. With `replacing`, it takes the place of the
shell. -/
def external : Nat → Bool → Octets → List Octets → Act Unit
  | 0, _, _, _ => throw (.killed 9)
  | n + 1, replacing, name, args => do
    let s ← get
    let refuse (words : String) (status : Nat) : Act Unit := do
      complain (Octets.ofText (if replacing then "exec: " else "") ++ name ++ Octets.ofText words)
      finish status
    match programPath s name with
    | none => refuse ": not found" 127
    | some path =>
      match resolve s.files s.working longestChain path (name :: args) with
      | .ok start => do
        program n s.environment start
        if let some words := (← get).signal.bind Builtin.obituary? then
          write 2 (Octets.ofText words ++ ['\n'])
      | .error (.plain bytes) => scriptFile n s.environment path bytes args
      | .error (.errno .accessDenied) => refuse ": Permission denied" 126
      | .error (.errno _) => refuse ": not found" 127

/-- Runs a program that was found, with the variables it finds. -/
def program : Nat → List (Octets × Octets) → Start → Act Unit
  | 0, _, _ => throw (.killed 9)
  | n + 1, environment, start =>
    match start.tool, start.arguments with
    | .shell, name :: args => process n environment name args
    | tool, name :: args => runTool tool name args
    | _, [] => return

/-- Runs a file as a script of a new shell. -/
def scriptFile : Nat → List (Octets × Octets) → Octets → Octets → List Octets → Act Unit
  | 0, _, _, _, _ => throw (.killed 9)
  | n + 1, environment, name, script, args => do
    let s ← get
    asProcess (environmentVariables environment) name args
      (toTheEnd n (lines n [] (read 1 script)) s.line)

/-- Runs a new shell. -/
def process : Nat → List (Octets × Octets) → Octets → List Octets → Act Unit
  | 0, _, _, _ => throw (.killed 9)
  | n + 1, environment, name, args => do
    let bindings := environmentVariables environment
    let stop (words : Octets) : Act Unit := asProcess bindings name [] do
      modify fun s => { s with line := 0 }
      complain words
      finish 2
    match Invocation.ofArguments {} args with
    | .error c => stop (Octets.ofText "Illegal option -" ++ [c])
    | .ok v =>
      let options : Act Unit := modify fun s => { s with
        strict := v.strict
        nounset := v.nounset
        traced := v.traced
        idle := v.idle }
      if v.script then
        match v.operands with
        | [] => stop (Octets.ofText "-c requires an argument")
        | script :: rest =>
          asProcess bindings (rest.headD name) (rest.drop 1) do
            options
            toTheEnd n (lines n [] (read 1 script)) 1
      else
        match if v.fromInput then none else v.operands.head? with
        | none => do
          let s ← get
          let script := s.pending 0
          set (s.leave 0 [])
          asProcess bindings name v.operands do
            options
            toTheEnd n (lines n [] (read 1 script)) 1
        | some path => do
          let rest := v.operands.drop 1
          let s ← get
          match s.files.read s.working path with
          | .ok script =>
            asProcess bindings path rest do
              options
              toTheEnd n (lines n [] (read 1 script)) 1
          | .error .isDirectory => asProcess bindings path rest (finish 0)
          | .error _ => stop (Octets.ofText "cannot open " ++ path ++ Octets.ofText ": No such file")

/-- Runs a script to its end, and then what it has set for its end. -/
def toTheEnd : Nat → Act Unit → Nat → Act Unit
  | 0, _, _ => throw (.killed 9)
  | n + 1, x, line => do
    let (r, after) := x.run (← get)
    set after
    match r with
    | .error (.killed signal) => throw (.killed signal)
    | _ =>
      match after.traps.lookup ['0'] with
      | none => return
      | some action => do
        let status := after.status
        modify fun s => { s with traps := [] }
        let (r, after) := (lines n [] (read line action)).run (← get)
        match r with
        | .error .exited => set after
        | .error (.killed signal) => throw (.killed signal)
        | _ => set { after with status }

/-- Runs as a process of its own, with nothing of the shell but the files and
the channels. -/
def asProcess (bindings : List (Octets × Variable)) (name : Octets) (parameters : List Octets)
    (x : Act Unit) : Act Unit := do
  let before ← get
  let (r, after) := x.run
    { files := before.files
      sinks := before.sinks
      sources := before.sources
      channels := before.channels
      working := before.working
      bindings, name, parameters }
  let signal := match r with
    | .error (.killed signal) => some signal
    | _ => none
  set { before with
    files := after.files
    sinks := after.sinks
    sources := after.sources
    signal
    status := match signal with
      | some signal => 128 + signal
      | none => after.status % 256 }

/-- Runs the lines of a script. -/
def lines : Nat → Octets → List Placed → Act Unit
  | 0, _, _ => throw (.killed 9)
  | n + 1, label, parts => do
    match nextLine (← get).line parts with
    | .error e => do
      modify fun s => { s with line := e.line }
      die (label ++ Octets.ofText ("Syntax error: " ++ e.message))
    | .ok none => return
    | .ok (some (c, rest)) => do
      if !(← get).idle then exec n c
      lines n label rest

end

end SamScript.Machine.Shell
