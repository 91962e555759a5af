/-
What a command does: what it prints, and the status it leaves. Reports about
a program go to the error output, in words or as JSON. What no report
describes ends a command without an outcome.
-/
import SamScript.CommandLine.Command
import SamScript.Config.Load
import SamScript.Eval.Program
import SamScript.Json.Writer
import SamScript.Tree.Outline
import SamScript.Value.Json

namespace SamScript

/-- What a command leaves. -/
structure Outcome where
  status : Nat := 0
  output : String := ""
  errors : String := ""
  deriving DecidableEq, Repr

/-- Why a command ends without an outcome. -/
inductive Breakdown where
  /-- The program's file cannot be read. -/
  | source (fault : TextFault)
  | config (failure : Config.LoadFailure)
  | run (failure : Failure)
  deriving DecidableEq, Repr

/-- What ended a command, in words. -/
def Breakdown.message : Breakdown → String
  | .source fault => fault.message
  | .config failure => failure.message
  | .run (.fault cause place) => (Failure.report cause place).format true
  | .run (.abort cause) => cause.message
  | .run .exhausted => EvalFault.message .stackExhausted

namespace Outcome

/-- A report, in words or as JSON. -/
def ofDiagnostic (json : Bool) (d : Diagnostic) : Outcome :=
  { status := 1, errors := (if json then d.toJson.writeIndented else d.format true) ++ "\n" }

/-- There is no file under a path. -/
def fileNotFound (path : Path) : Outcome :=
  { status := 1, errors := s!"Error: File not found: {path.text}\n" }

/-- What the global names stand for: a line for each, or one JSON object. -/
def ofGlobals (json : Bool) (globals : Bindings Value) : Outcome :=
  { output :=
      if json then (Json.object (globals.map fun (name, v) => (name, v.toJson))).writeIndented ++ "\n"
      else String.join (globals.map fun (name, v) => s!"{name} = {v.render}\n") }

/-- A program without errors. -/
def ofSound (path : Path) (tree : Tree) : Outcome :=
  { output := s!"OK: {path.name} - {tree.root.named.length} top-level item(s), no errors\n" }

/-- The tree of a program, as an outline. -/
def ofTree (tree : Tree) : Outcome :=
  { output := tree.root.outline tree.source ++ "\n" }

end Outcome

namespace Command

/-- Goes on with the text of a program, if there is one. -/
def withSource (host : Host) (file : String) (go : String → Except Breakdown Outcome) :
    Except Breakdown Outcome :=
  let path := Path.ofText file
  match host.readText? Utf8.decode? path with
  | .error fault => .error (.source fault)
  | .ok none => .ok (.fileNotFound path)
  | .ok (some text) => go (String.ofList text)

/-- Goes on with the tree of a program, if its text has one. -/
def withTree (bounds : Bounds) (host : Host) (file : String) (json : Bool) (go : Tree → Outcome) :
    Except Breakdown Outcome :=
  withSource host file fun source =>
    match Tree.ofSource bounds (some file) source with
    | .error e => .ok (.ofDiagnostic json (e.diagnostic (Lines.split source.toList)))
    | .ok parsed => .ok (go parsed)

/-- The settings that a command asks for: the defaults if it names no file. -/
def settings (host : Host) (file : Option String) : Except Config.LoadFailure Config :=
  match file with
  | none => .ok {}
  | some path => if path.isEmpty then .ok {} else Config.load host path

/-- Runs a program text. -/
def runText (surroundings : Surroundings) (json : Bool) (source : String) :
    Except Breakdown Outcome :=
  match runSource surroundings source with
  | .ok s => .ok (.ofGlobals json s.scopes.globals)
  | .error (.source e) => .ok (.ofDiagnostic json (e.diagnostic (Lines.split source.toList)))
  | .error (.eval (.fault cause place)) => .ok (.ofDiagnostic json (Failure.report cause place))
  | .error (.eval failure) => .error (.run failure)

/-- Carries out a command. A program's text is read before the settings, and
the settings before the text is taken apart. -/
def perform (bounds : Bounds) (host : Host) : Command → Except Breakdown Outcome
  | .run file config json =>
    withSource host file fun source =>
      match settings host config with
      | .error (.settings (.fault fault)) => .ok (.ofDiagnostic json fault.diagnostic)
      | .error failure => .error (.config failure)
      | .ok config => runText { host, config, bounds, file := some file } json source
  | .check file json => withTree bounds host file json (.ofSound (Path.ofText file))
  | .tree file => withTree bounds host file false .ofTree

end Command

end SamScript
