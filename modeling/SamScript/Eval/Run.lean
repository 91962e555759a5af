/-
Runs: what is fixed while a program is evaluated, what changes, and how
steps of evaluation follow each other. A failure ends the run but keeps what
changed before it. What a scope or a call puts in place is taken away again
however it ends; `inScope` and `inCall` see to that.
-/
import SamScript.Eval.Foreign
import SamScript.Tree.Walk

namespace SamScript

variable {φ : Type}

-- ================================================================= state

/-- A program that was started, and the scopes at that moment. -/
structure Started (φ : Type := FunctionRef) where
  launch : Foreign.Launch φ
  scopes : Scopes φ

/-- What changes while a program is evaluated. -/
structure RunState (φ : Type := FunctionRef) where
  scopes : Scopes φ := {}
  /-- The names of the active calls, the innermost first. -/
  calls : List String := []
  /-- The programs started so far, the latest first. -/
  started : List (Started φ) := []

/-- What is fixed while a program is evaluated, how its functions are kept
among it. -/
structure Env (φ : Type := FunctionRef) where
  host : Host
  config : Config
  bounds : Bounds
  /-- The name of the program's file. -/
  file : Option String
  /-- The root of the program's tree. -/
  root : Node
  /-- The bytes that the nodes cover. -/
  source : List UInt8
  /-- The lines of the source. -/
  lines : List String
  /-- The function of a body and its parameters. -/
  close : Node → List String → φ
  /-- The body of a function, if it can be found again. -/
  body? : φ → Option Node

/-- What a statement or an expression comes to: a value, or a request to
leave the enclosing call with one. -/
inductive Signal (φ : Type := FunctionRef) where
  | value (v : Value φ)
  | returned (v : Value φ)

-- ================================================================== runs

/-- A step of evaluation. -/
def Run (φ α : Type) : Type :=
  RunState φ → Except Failure α × RunState φ

namespace Run

instance : Monad (Run φ) where
  pure a := fun s => (.ok a, s)
  bind x f := fun s =>
    match x s with
    | (.ok a, s) => f a s
    | (.error e, s) => (.error e, s)

theorem pure_apply {α : Type} (a : α) (s : RunState φ) : (pure a : Run φ α) s = (.ok a, s) :=
  rfl

theorem bind_apply {α β : Type} (x : Run φ α) (f : α → Run φ β) (s : RunState φ) :
    (x >>= f) s = match x s with
      | (.ok a, s) => f a s
      | (.error e, s) => (.error e, s) := rfl

/-- Ends the run. -/
def fail {α : Type} (f : Failure) : Run φ α :=
  fun s => (.error f, s)

/-- Ends the run with a fault whose place is not known yet. -/
def fault {α : Type} (f : EvalFault) : Run φ α :=
  fail (.fault f none)

/-- The result of a computation that changes nothing. -/
def lift {α : Type} (x : Except Failure α) : Run φ α :=
  fun s => (x, s)

/-- The scopes as they are. -/
def scopes : Run φ (Scopes φ) :=
  fun s => (.ok s.scopes, s)

/-- Changes the scopes. -/
def modifyScopes (f : Scopes φ → Scopes φ) : Run φ Unit :=
  fun s => (.ok (), { s with scopes := f s.scopes })

/-- Gives a fault of a step the place of the step, unless it has one. -/
def located {α : Type} (place : Place) (x : Run φ α) : Run φ α :=
  fun s =>
    match x s with
    | (.error e, s) => (.error (e.locate place), s)
    | r => r

/-- Takes a step in a frame of its own; afterwards the frames are those that
were there before, whatever the step did. -/
def inScope {α : Type} (bindings : Frame φ) (x : Run φ α) : Run φ α :=
  fun s =>
    match x { s with scopes := s.scopes.push bindings } with
    | (r, s') => (r, { s' with scopes := s'.scopes.cutTo s.scopes.height })

/-- Takes a step as an active call. -/
def inCall {α : Type} (name : String) (x : Run φ α) : Run φ α :=
  fun s =>
    match x { s with calls := name :: s.calls } with
    | (r, s') => (r, { s' with calls := s'.calls.tail })

/-- Ends the run if something has grown beyond a bound. -/
def within (bound : Option Nat) (measure : RunState φ → Nat) : Run φ Unit :=
  fun s =>
    match bound with
    | none => (.ok (), s)
    | some b => if measure s > b then (.error .exhausted, s) else (.ok (), s)

/-- Starts a program and waits for its answer. -/
def launch [Callable φ] (env : Env φ) (l : Foreign.Launch φ) : Run φ (Value φ) :=
  fun s =>
    let past := s.started.map fun started => started.launch.request env.config
    let result := env.host.start past (l.request env.config)
    let started := match result with
      | .ok _ => ⟨l, s.scopes⟩ :: s.started
      | .error _ => s.started
    (Foreign.answer env.bounds env.config l result, { s with started })

end Run

-- ================================================================= nodes

namespace Env

/-- Where a node is. -/
def place (env : Env φ) (n : Node) : Place :=
  let position (p : Point) (offset : Nat) : Position := ⟨p.row + 1, p.column + 1, offset⟩
  let x := n.extent
  { span := ⟨position x.startPoint x.startByte, position x.endPoint x.endByte, env.file⟩
    line := Lines.line? env.lines (x.startPoint.row + 1) }

/-- What a node's bytes spell. -/
def text (env : Env φ) (n : Node) : Run φ String :=
  match Utf8.decode? (n.bytes env.source) with
  | .ok cs => pure (String.ofList cs)
  | .error flaw => Run.fail (.abort (.brokenText flaw))

end Env

/-- A node is not what its place asks for. -/
def misshapen {α : Type} (expected : String) (found : NodeKind) : Run φ α :=
  Run.fault (.shape expected found.text)

/-- The node, if there is one, has to be of a kind. -/
def expectKind (kind : NodeKind) (n : Option Node) : Run φ Node :=
  match n with
  | none => Run.fault (.shape kind.text "nothing")
  | some n => if n.kind = kind then pure n else misshapen kind.text n.kind

end SamScript
