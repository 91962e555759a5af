/-
The bridge to programs outside: manifests, which give names to command
lines, and the two ways to run something. A foreign function is run by the
configured shell and has to answer in JSON; a name that nothing is bound to
is run as a program, and its outputs and status are the answer.
-/
import SamScript.Bounds
import SamScript.Config.Basic
import SamScript.Eval.Failure
import SamScript.Json.Reader
import SamScript.Scope.Basic
import SamScript.Text.Encoding
import SamScript.Value.Json

namespace SamScript.Foreign

variable {φ : Type}

-- ============================================================= manifests

/-- The text of a file, its line ends made alike. -/
def fileText (bytes : List UInt8) : Except Utf8.Broken (List Char) :=
  (Utf8.decode? bytes).map Lines.normalize

/-- The command line that a manifest has for a name. -/
def entry (bounds : Bounds) (host : Host) (config : Config) (path name : String) :
    Except Failure String :=
  let file := (config.resolveManifest path).text
  let unreadable (reason : String) : Except Failure String :=
    .error (.fault (.manifestUnreadable file reason) none)
  match host.readFile file with
  | .error .nullByte => .error (.abort .nullByte)
  | .error fault => unreadable fault.message
  | .ok bytes =>
    match fileText bytes with
    | .error broken => unreadable broken.message
    | .ok text =>
      match Json.readWithin bounds.json text with
      | .error .malformed => .error (.fault (.manifestInvalid name file) none)
      | .error (.tooLong n) => .error (.abort (.number (.tooLong n)))
      | .error .tooDeep => .error (.abort .jsonTooDeep)
      | .ok json =>
        match json.member? name with
        | some (.string command) => .ok command
        | _ => .error (.fault (.interfaceEntry name file) none)

/-- Installs the foreign function of a name in the global frame, whatever
frame is current. -/
def register (bounds : Bounds) (host : Host) (config : Config) (path name : String)
    (scopes : Scopes φ) : Except Failure (Value φ × Scopes φ) :=
  (entry bounds host config path name).map fun command =>
    (.foreign command, scopes.declareGlobal name (.foreign command))

-- ============================================================== launches

/-- Something that a call starts. -/
inductive Launch (φ : Type := FunctionRef) where
  /-- A program by its name. -/
  | program (name : String) (arguments : List (Value φ))
  /-- The command line of a foreign function. -/
  | template (text : String) (arguments : List (Value φ))

namespace Launch

variable [Callable φ]

/-- What is run, in one line. -/
def command : Launch φ → String
  | .program name arguments => " ".intercalate (name :: arguments.map Value.render)
  | .template text arguments => " ".intercalate (text :: arguments.map Value.render)

/-- What is asked of the host. -/
def request (config : Config) : Launch φ → Request
  | .program name arguments =>
    { program := name, arguments := arguments.map Value.render, bindings := config.env }
  | l@(.template _ _) =>
    { program := config.shell, arguments := ["-c", l.command], bindings := config.env }

end Launch

/-- The text of an output. -/
def outputText (config : Config) (bytes : List UInt8) : Except Failure String :=
  match Encoding.decodeAs? config.encoding bytes with
  | some text => .ok text
  | none => .error (.abort (.unknownEncoding config.encoding))

/-- The value that the output of a foreign function spells. -/
def outputValue (bounds : Bounds) (command text : String) : Except Failure (Value φ) :=
  match Json.readWithin bounds.json text.toList with
  | .error .tooDeep => .error .exhausted
  | .error _ => .error (.fault (.foreignOutput command) none)
  | .ok json =>
    match Value.ofJson? json with
    | some v => .ok v
    | none => .error (.abort .integerBeyondDoubles)

/-- The status of a program as a value; a signal shows as -1. -/
def statusValue (status : Int) : Value φ :=
  .int (Int64.ofInt (if status < 0 then -1 else status))

/-- The value of a launch, from what the host answered. -/
def answer [Callable φ] (bounds : Bounds) (config : Config) (launch : Launch φ)
    (result : Except StartFault Finished) : Except Failure (Value φ) :=
  match result with
  | .error fault => .error (.fault (.startFailed launch.command fault.message) none)
  | .ok finished =>
    match launch with
    | .template _ _ => do
      let text ← outputText config finished.stdout
      outputValue bounds launch.command text
    | .program _ _ => do
      let stdout ← outputText config finished.stdout
      let stderr ← outputText config finished.stderr
      return .object [("stdout", .string stdout), ("stderr", .string stderr),
        ("status", statusValue finished.status)]

end SamScript.Foreign
