/-
Whole programs. Interface declarations come first and are registered in
order; then the statements run on the global frame, up to the first failure.
-/
import SamScript.Eval.Evaluator
import SamScript.Tree.OfSource

namespace SamScript

namespace Eval

variable {φ : Type}

/-- Registers the foreign functions of interface declarations. -/
def interfaces (env : Env φ) : List Node → Run φ Unit
  | [] => pure ()
  | n :: rest => do
    Run.located (env.place n) do
      let n ← expectKind .interface_ (some n)
      match n.child? .path with
      | none => misshapen Field.path.text n.kind
      | some path => do
        let path ← stringText env path
        match n.child? .module_ with
        | none => misshapen Field.module_.text n.kind
        | some name => do
          let name ← expectKind .identifier (some name)
          let name ← env.text name
          let (_, scopes) ← Run.lift
            (Foreign.register env.bounds env.host env.config path name (← Run.scopes))
          Run.modifyScopes fun _ => scopes
    interfaces env rest

/-- A run that nests too deep is blamed on the statement that began it. -/
def blamed {α : Type} (place : Place) (x : Run φ α) : Run φ α :=
  fun s =>
    match x s with
    | (.error .exhausted, s) => (.error (.fault .stackExhausted (some place)), s)
    | r => r

variable [Callable φ] [DecidableEq φ]

/-- Executes the statements of a program. A return has nothing to leave
here. -/
def topLevel (env : Env φ) (call : Caller φ) : List Node → Run φ Unit
  | [] => pure ()
  | n :: rest => do
    match ← blamed (env.place n) (statement env call n) with
    | .returned _ => Run.located (env.place n) (Run.fault .returnOutsideFunction)
    | .value _ => topLevel env call rest

/-- Evaluates the program of a root node. -/
def program (env : Env φ) : Run φ Unit := do
  let root ← expectKind .sourceFile (some env.root)
  let call := enter env env.config.maxCallDepth
  match root.named with
  | first :: rest =>
    if first.kind = .interfaces then do
      interfaces env first.named
      topLevel env call rest
    else topLevel env call (first :: rest)
  | [] => pure ()

end Eval

/-- What a program runs with. -/
structure Surroundings where
  host : Host
  config : Config := {}
  bounds : Bounds := {}
  /-- The name of the program's file. -/
  file : Option String := none

/-- The environment of a tree over some bytes. A function is kept as the
range of bytes that its body covers, and the body is looked up by it in the
tree. -/
def Surroundings.env (r : Surroundings) (root : Node) (source : List UInt8) : Env :=
  { host := r.host
    config := r.config
    bounds := r.bounds
    file := r.file
    root
    source
    lines := Lines.split (Utf8.decodeLossy source)
    close := fun body parameters => ⟨body.extent.startByte, body.extent.endByte, parameters⟩
    body? := fun f => root.descendant? f.start f.stop }

/-- Evaluates a tree over some bytes, from nothing. -/
def evaluate (r : Surroundings) (root : Node) (source : List UInt8) :
    Except Failure Unit × RunState :=
  Eval.program (r.env root source) {}

/-- Why a program text did not run to its end. -/
inductive RunError where
  | source (e : SourceError)
  | eval (e : Failure)

/-- Runs a program text. -/
def runSource (r : Surroundings) (source : String) : Except RunError RunState :=
  match Tree.ofSource r.bounds r.file source with
  | .error e => .error (.source e)
  | .ok tree =>
    match evaluate r tree.root tree.source with
    | (.ok (), s) => .ok s
    | (.error e, _) => .error (.eval e)

end SamScript
