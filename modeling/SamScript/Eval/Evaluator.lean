/-
The evaluator. Expressions, statements and blocks call each other on ever
smaller nodes; a call of a function starts over on a body from anywhere in
the tree, but with one call less to spare. So evaluation is split in two.
The functions of the first part take the way calls are entered as an
argument and go down the tree; `enter`, in the second part, ties the knot by
recursion on the number of calls still free. There is nothing to run out of
but the limit on calls that the configuration sets.
-/
import SamScript.Eval.Literal

namespace SamScript

-- ============================================================ node depth

mutual

/-- How deep the operands of a node nest. Statements in blocks count for
themselves when their turn comes. -/
def Node.operandDepth : Node → Nat
  | .mk kind _ _ _ children => if kind = .statementBlock then 0 else 1 + operandDepths children

def Node.operandDepths : List Node → Nat
  | [] => 0
  | n :: rest => max n.operandDepth (Node.operandDepths rest)

end

namespace Eval

variable {φ : Type} [Callable φ] [DecidableEq φ]

/-- The way a call of a function is entered: the name it goes by, the
function and its arguments. -/
abbrev Caller (φ : Type := FunctionRef) := String → φ → List (Value φ) → Run φ (Value φ)

/-- Runs what a call was found to run. -/
def dispatch (env : Env φ) (call : Caller φ) (name : String) (arguments : List (Value φ)) :
    Target φ → Run φ (Value φ)
  | .function f => call name f arguments
  | .foreign template => Run.launch env (.template template arguments)
  | .program => Run.launch env (.program name arguments)

/-- The operator of a binary expression: its second child, whatever that is. -/
def operatorText (env : Env φ) (n : Node) : Run φ String :=
  match n.children[1]? with
  | none => Run.fail (.abort .missingOperator)
  | some op => env.text op

-- ========================================================== down the tree

mutual

/-- Evaluates an expression. -/
def expr (env : Env φ) (call : Caller φ) (n : Node) : Run φ (Signal φ) :=
  Run.located (env.place n) <|
    match n.kind with
    | .literal => do return .value (← literal env n)
    | .identifier => do return .value (← variableValue env n)
    | .lambdaExpression => do return .value (← lambda env n)
    | .binaryExpression =>
      match _h : n.child? .left with
      | none => misshapen Field.left.text n.kind
      | some left => do
        let a ← valueOf env call left
        match _h' : n.child? .right with
        | none => misshapen Field.right.text n.kind
        | some right => do
          let b ← valueOf env call right
          let op ← operatorText env n
          return .value (← applyOperator op a b)
    | .nestedIdentifier =>
      match _h : n.child? .parent with
      | none => misshapen Field.parent.text n.kind
      | some parent => do
        let v ← valueOf env call parent
        match n.child? .name with
        | none => misshapen Field.name.text n.kind
        | some name => do
          let name ← env.text name
          return .value (← orFault (attributeOf v name))
    | .arrayExpression => do return .value (.array (← values env call n.named))
    | .ifExpression =>
      match _h : n.child? .condition with
      | none => misshapen Field.condition.text n.kind
      | some condition => do
        match ← valueOf env call condition with
        | .int test =>
          if test ≠ 0 then
            match _h' : n.child? .consequence with
            | none => misshapen Field.consequence.text n.kind
            | some consequence => block env call [] consequence
          else
            match _h' : n.child? .else_ with
            | none => return .value .undefined
            | some alternative =>
              if alternative.kind = .ifExpression then expr env call alternative
              else block env call [] alternative
        | v => Run.fault (.conditionNotInt v.kind)
    | .callExpression =>
      match _h : n.child? .function with
      | none => misshapen Field.function.text n.kind
      | some callee =>
        if callee.kind = .identifier then do
          let name ← env.text callee
          let target ← orNotCallable (target (← Run.scopes) name)
          let arguments ← values env call (n.inRole .arguments)
          return .value (← dispatch env call name arguments target)
        else do
          let target ← orNotCallable (valueTarget (← valueOf env call callee))
          let arguments ← values env call (n.inRole .arguments)
          return .value (← dispatch env call "<anonymous>" arguments target)
    | kind => misshapen "expression" kind
termination_by 3 * n.size
decreasing_by
  all_goals first
    | (have below := Node.size_lt_of_child? _h'; omega)
    | (have below := Node.size_lt_of_child? _h; omega)
    | (have below := Node.sizes_named_lt n; omega)
    | (have below := Node.sizes_inRole_lt n .arguments; omega)

/-- Evaluates an expression that has to come to a value. -/
def valueOf (env : Env φ) (call : Caller φ) (n : Node) : Run φ (Value φ) := do
  match ← expr env call n with
  | .value v => pure v
  | .returned _ => Run.located (env.place n) (Run.fault .returnAsValue)
termination_by 3 * n.size + 1

/-- Evaluates expressions from left to right. -/
def values (env : Env φ) (call : Caller φ) (ns : List Node) : Run φ (List (Value φ)) :=
  match ns with
  | [] => pure []
  | n :: rest => do
    let v ← valueOf env call n
    return v :: (← values env call rest)
termination_by 3 * Node.sizes ns + 2
decreasing_by
  all_goals
    have := Node.size_eq n
    simp only [Node.sizes]
    omega

/-- Executes a block in a frame of its own, up to the first return. -/
def block (env : Env φ) (call : Caller φ) (bindings : Frame φ) (n : Node) : Run φ (Signal φ) :=
  if n.kind = .statementBlock then Run.inScope bindings (statements env call n.named)
  else misshapen NodeKind.statementBlock.text n.kind
termination_by 3 * n.size
decreasing_by
  have := Node.sizes_named_lt n
  omega

/-- Executes statements up to the first return. -/
def statements (env : Env φ) (call : Caller φ) (ns : List Node) : Run φ (Signal φ) :=
  match ns with
  | [] => return .value .undefined
  | n :: rest => do
    match ← statement env call n with
    | .returned v => return .returned v
    | .value _ => statements env call rest
termination_by 3 * Node.sizes ns + 2
decreasing_by
  all_goals
    have := Node.size_eq n
    simp only [Node.sizes]
    omega

/-- Executes a statement. -/
def statement (env : Env φ) (call : Caller φ) (n : Node) : Run φ (Signal φ) :=
  Run.located (env.place n) <| do
    Run.within env.bounds.operands fun _ => n.operandDepth
    match n.kind with
    | .expressionStatement =>
      match _h : n.named with
      | [] => Run.fail (.abort .missingExpression)
      | inner :: _ => expr env call inner
    | .variableDeclaration => do
      declarators env call n.named
      return .value .undefined
    | .assignment =>
      match n.child? .lhs with
      | none => misshapen Field.lhs.text n.kind
      | some lhs => do
        let lhs ← expectKind .identifier (some lhs)
        match _h : n.child? .rhs with
        | none => misshapen Field.rhs.text n.kind
        | some rhs => do
          let v ← valueOf env call rhs
          let name ← env.text lhs
          match (← Run.scopes).assign? name v with
          | none => Run.fault (.undefinedAssignment name)
          | some scopes => do
            Run.modifyScopes fun _ => scopes
            return .value v
    | .returnStatement =>
      match _h : n.child? .value with
      | none => return .returned .undefined
      | some inner => do return .returned (← valueOf env call inner)
    | kind => misshapen "statement" kind
termination_by 3 * n.size + 1
decreasing_by
  all_goals first
    | (have below := Node.size_lt_of_child? _h; omega)
    | (have below := Node.size_lt_of_named _h; omega)
    | (have below := Node.sizes_named_lt n; omega)

/-- Declares variables one after the other. A name is visible, and
undefined, while its own value is computed. -/
def declarators (env : Env φ) (call : Caller φ) (ns : List Node) : Run φ Unit :=
  match ns with
  | [] => pure ()
  | n :: rest => do
    let _ ← expectKind .variableDeclarator (some n)
    match n.child? .variable_ with
    | none => misshapen Field.variable_.text n.kind
    | some variable_ => do
      let name ← env.text variable_
      Run.modifyScopes fun s => s.declare name .undefined
      match _h : n.child? .value with
      | none => pure ()
      | some inner => do
        let v ← valueOf env call inner
        Run.modifyScopes fun s => s.declare name v
      declarators env call rest
termination_by 3 * Node.sizes ns + 2
decreasing_by
  all_goals
    have := Node.size_eq n
    simp only [Node.sizes]
    first
    | omega
    | (have below := Node.size_lt_of_child? _h; omega)

end

-- ================================================================= calls

/-- Enters a call while `free` more calls may become active: binds the
arguments in a frame of its own and runs the body. -/
def enter (env : Env φ) : Nat → Caller φ
  | free, name, f, arguments => do
    let parameters := Callable.parameters f
    if arguments.length ≠ parameters.length then
      Run.fault (.arity parameters.length arguments.length)
    else
      let body ← expectKind .statementBlock (env.body? f)
      match free with
      | 0 => Run.fault (.callDepth env.config.maxCallDepth)
      | free + 1 =>
        Run.within env.bounds.calls fun s => s.calls.length
        let bindings := Bindings.ofList (parameters.zip arguments)
        match ← Run.inCall name (block env (enter env free) bindings body) with
        | .returned v => return v
        | .value _ => return .undefined

end Eval

end SamScript
