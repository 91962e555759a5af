/-
The leaves of evaluation: what needs no other node to be evaluated first.
-/
import SamScript.Eval.Run
import SamScript.Value.Literal

namespace SamScript.Eval

variable {φ : Type}

/-- The text that a piece of a string literal spells. -/
def piece (env : Env φ) (n : Node) : Run φ (List Char) :=
  match n.kind with
  | .stringFragment => do return (← env.text n).toList
  | .escapeSequence => do return [Literal.decodeEscape ((← env.text n).toList.drop 1)]
  | kind => misshapen "string_fragment" kind

/-- The text that pieces of a string literal spell together. -/
def pieces (env : Env φ) : List Node → Run φ (List Char)
  | [] => pure []
  | n :: rest => do
    let first ← piece env n
    return first ++ (← pieces env rest)

/-- The text of a string literal. -/
def stringText (env : Env φ) (n : Node) : Run φ String := do
  let n ← expectKind .string (some n)
  return String.ofList (← pieces env n.named)

/-- The value of a number. -/
def number (text : String) : Run φ (Value φ) :=
  match Literal.number? text.toList with
  | .error fault => Run.fail (.abort (.number fault))
  | .ok none => Run.fault (.integerTooLarge text)
  | .ok (some v) => pure v

/-- The value of a literal: its first named child is what it is about. -/
def literal (env : Env φ) (n : Node) : Run φ (Value φ) :=
  match n.named with
  | [] => Run.fault (.shape "number or string" "nothing")
  | inner :: _ =>
    match inner.kind with
    | .number => do number (← env.text inner)
    | .string => do return .string (← stringText env inner)
    | kind => misshapen "number or string" kind

/-- The value of a variable. -/
def variableValue (env : Env φ) (n : Node) : Run φ (Value φ) := do
  let name ← env.text n
  match (← Run.scopes).resolve? name with
  | some v => pure v
  | none => Run.fault (.undefinedVariable name)

/-- The value of an attribute; only objects have any. -/
def attributeOf (v : Value φ) (name : String) : Except EvalFault (Value φ) :=
  match v with
  | .object fields =>
    match Bindings.get? name fields with
    | some v => .ok v
    | none => .error (.unknownAttribute name)
  | v => .error (.notAttributable v.kind name)

/-- A fault that may have happened, as a step of a run. -/
def orFault (x : Except EvalFault (Value φ)) : Run φ (Value φ) :=
  Run.lift (x.mapError fun f => .fault f none)

/-- Applies the operator of a text. -/
def applyOperator [DecidableEq φ] (text : String) (a b : Value φ) : Run φ (Value φ) :=
  match Operator.ofText? text with
  | none => Run.fault (.unknownOperator text)
  | some op =>
    match op.apply a b with
    | .ok v => pure v
    | .error (.incomparable op left right) => Run.fault (.incomparable op left right)
    | .error .noRemainder => Run.fail (.abort .noRemainder)

/-- The names of a lambda's parameters. -/
def parameterNames (env : Env φ) : List Node → Run φ (List String)
  | [] => pure []
  | n :: rest => do
    let n ← expectKind .identifier (some n)
    let name ← env.text n
    return name :: (← parameterNames env rest)

/-- A lambda as a value: the function of its body and its parameters. -/
def lambda (env : Env φ) (n : Node) : Run φ (Value φ) :=
  match n.child? .body with
  | none => misshapen Field.body.text n.kind
  | some body => do
    let body ← expectKind .statementBlock (some body)
    let parameters ← parameterNames env (n.inRole .parameters)
    return .function (env.close body parameters)

/-- What a call runs. -/
inductive Target (φ : Type := FunctionRef) where
  | function (f : φ)
  | foreign (template : String)
  /-- The program of the name. -/
  | program
  deriving DecidableEq, Repr

/-- What a call of a name runs: a function bound to it; else the foreign
function of that name in the global frame, even where it is shadowed; else,
if nothing is bound to the name, the program that goes by it. What is bound
but cannot be called is answered by its kind. -/
def target (scopes : Scopes φ) (name : String) : Except Kind (Target φ) :=
  match scopes.resolve? name with
  | some (.function f) => .ok (.function f)
  | some (.foreign template) => .ok (.foreign template)
  | bound =>
    match scopes.globals.get? name with
    | some (.foreign template) => .ok (.foreign template)
    | _ =>
      match bound with
      | none => .ok .program
      | some v => .error v.kind

/-- What a call of a value runs. -/
def valueTarget (v : Value φ) : Except Kind (Target φ) :=
  match v with
  | .function f => .ok (.function f)
  | .foreign template => .ok (.foreign template)
  | v => .error v.kind

/-- A target, or the fault that there is none. -/
def orNotCallable (t : Except Kind (Target φ)) : Run φ (Target φ) :=
  Run.lift (t.mapError fun kind => .fault (.notCallable kind) none)

end SamScript.Eval
