/-
What the evaluator does on nodes of the shape it asks for: one equation for
each kind of node and each way it can look, with the checks of the children
gone. They say nothing new; they are the form in which proofs about parsed
trees read the evaluator.
-/
import SamScript.Eval.Program
import SamScript.Proofs.Text.Utf8

namespace SamScript

variable {φ : Type}

/-- A value, and then more. -/
theorem Run.pure_bind {α β : Type} (a : α) (f : α → Run φ β) : pure a >>= f = f a := rfl

/-- Three steps one after the other. -/
theorem Run.bind_assoc {α β γ : Type} (x : Run φ α) (f : α → Run φ β) (g : β → Run φ γ) :
    x >>= f >>= g = x >>= fun a => f a >>= g := by
  funext s
  rw [bind_apply, bind_apply, bind_apply]
  rcases x s with ⟨e | a, t⟩ <;> rfl

/-- What has not grown beyond a bound goes on. -/
theorem Run.within_eq {bound : Option Nat} {measure : RunState φ → Nat} {s : RunState φ}
    (h : ∀ limit ∈ bound, measure s ≤ limit) : within bound measure s = (.ok (), s) := by
  unfold within
  split
  · rfl
  · rename_i limit
    exact if_neg (Nat.not_lt.2 (h limit rfl))

/-- What the bytes of a node spell is its text. -/
theorem Env.text_of_bytes {env : Env φ} {n : Node} {cs : List Char}
    (h : n.bytes env.source = Utf8.encode cs) : env.text n = pure (String.ofList cs) := by
  unfold Env.text
  rw [h, Utf8.decode?_encode]

namespace Eval

variable [Callable φ] [DecidableEq φ] {env : Env φ} {call : Caller φ} {n : Node}

-- ============================================================= expressions

theorem expr_literal (hk : n.kind = .literal) :
    expr env call n = Run.located (env.place n) (do return .value (← literal env n)) := by
  rw [expr]
  simp only [hk]

theorem expr_name (hk : n.kind = .identifier) :
    expr env call n = Run.located (env.place n) (do return .value (← variableValue env n)) := by
  rw [expr]
  simp only [hk]

theorem expr_lambda (hk : n.kind = .lambdaExpression) :
    expr env call n = Run.located (env.place n) (do return .value (← lambda env n)) := by
  rw [expr]
  simp only [hk]

theorem expr_binary {left right : Node} (hk : n.kind = .binaryExpression)
    (hleft : n.child? .left = some left) (hright : n.child? .right = some right) :
    expr env call n = Run.located (env.place n) (do
      let a ← valueOf env call left
      let b ← valueOf env call right
      let op ← operatorText env n
      return .value (← applyOperator op a b)) := by
  rw [expr]
  simp only [hk]
  refine congrArg _ ?_
  split
  · rename_i h
    cases hleft.symm.trans h
  · rename_i left' h
    cases hleft.symm.trans h
    refine congrArg _ (funext fun a => ?_)
    split
    · rename_i h
      cases hright.symm.trans h
    · rename_i right' h
      cases hright.symm.trans h
      rfl

theorem expr_access {parent name : Node} (hk : n.kind = .nestedIdentifier)
    (hparent : n.child? .parent = some parent) (hname : n.child? .name = some name) :
    expr env call n = Run.located (env.place n) (do
      let v ← valueOf env call parent
      let name ← env.text name
      return .value (← orFault (attributeOf v name))) := by
  rw [expr]
  simp only [hk]
  refine congrArg _ ?_
  split
  · rename_i h
    cases hparent.symm.trans h
  · rename_i parent' h
    cases hparent.symm.trans h
    rw [hname]

theorem expr_array (hk : n.kind = .arrayExpression) :
    expr env call n = Run.located (env.place n) (do
      return .value (.array (← values env call n.named))) := by
  rw [expr]
  simp only [hk]

/-- What an if expression comes to where its condition is zero. -/
def otherwise (env : Env φ) (call : Caller φ) : Option Node → Run φ (Signal φ)
  | none => return .value .undefined
  | some alternative =>
    if alternative.kind = .ifExpression then expr env call alternative
    else block env call [] alternative

theorem expr_if {condition consequence : Node} (hk : n.kind = .ifExpression)
    (hcondition : n.child? .condition = some condition)
    (hconsequence : n.child? .consequence = some consequence) :
    expr env call n = Run.located (env.place n) (do
      match ← valueOf env call condition with
      | .int test =>
        if test ≠ 0 then block env call [] consequence
        else otherwise env call (n.child? .else_)
      | v => Run.fault (.conditionNotInt v.kind)) := by
  rw [expr]
  simp only [hk]
  refine congrArg _ ?_
  split
  · rename_i h
    cases hcondition.symm.trans h
  · rename_i condition' h
    cases hcondition.symm.trans h
    refine congrArg _ (funext fun v => ?_)
    cases v with
    | int test =>
      dsimp only
      refine ite_congr rfl (fun _ => ?_) fun _ => ?_
      · split
        · rename_i h
          cases hconsequence.symm.trans h
        · rename_i consequence' h
          cases hconsequence.symm.trans h
          rfl
      · split
        · rename_i h
          rw [h]
          rfl
        · rename_i alternative h
          rw [h]
          rfl
    | _ => rfl

theorem expr_call_name {callee : Node} (hk : n.kind = .callExpression)
    (hcallee : n.child? .function = some callee) (hname : callee.kind = .identifier) :
    expr env call n = Run.located (env.place n) (do
      let name ← env.text callee
      let target ← orNotCallable (target (← Run.scopes) name)
      let arguments ← values env call (n.inRole .arguments)
      return .value (← dispatch env call name arguments target)) := by
  rw [expr]
  simp only [hk]
  refine congrArg _ ?_
  split
  · rename_i h
    cases hcallee.symm.trans h
  · rename_i callee' h
    cases hcallee.symm.trans h
    rw [if_pos hname]

theorem expr_call_value {callee : Node} (hk : n.kind = .callExpression)
    (hcallee : n.child? .function = some callee) (hname : callee.kind ≠ .identifier) :
    expr env call n = Run.located (env.place n) (do
      let target ← orNotCallable (valueTarget (← valueOf env call callee))
      let arguments ← values env call (n.inRole .arguments)
      return .value (← dispatch env call "<anonymous>" arguments target)) := by
  rw [expr]
  simp only [hk]
  refine congrArg _ ?_
  split
  · rename_i h
    cases hcallee.symm.trans h
  · rename_i callee' h
    cases hcallee.symm.trans h
    rw [if_neg hname]

theorem block_eq {bindings : Frame φ} (hk : n.kind = .statementBlock) :
    block env call bindings n = Run.inScope bindings (statements env call n.named) := by
  rw [block, if_pos hk]

-- ============================================================== statements

/-- A statement once it is known not to nest too deep. -/
theorem statement_expression {inner : Node} {rest : List Node}
    (hk : n.kind = .expressionStatement) (hnamed : n.named = inner :: rest) :
    statement env call n = Run.located (env.place n) (do
      Run.within env.bounds.operands fun _ => n.operandDepth
      expr env call inner) := by
  rw [statement]
  simp only [hk]
  refine congrArg _ (congrArg _ (funext fun _ => ?_))
  split
  · rename_i h
    cases hnamed.symm.trans h
  · rename_i inner' rest' h
    cases hnamed.symm.trans h
    rfl

theorem statement_declaration (hk : n.kind = .variableDeclaration) :
    statement env call n = Run.located (env.place n) (do
      Run.within env.bounds.operands fun _ => n.operandDepth
      declarators env call n.named
      return .value .undefined) := by
  rw [statement]
  simp only [hk]

theorem statement_assignment {lhs rhs : Node} (hk : n.kind = .assignment)
    (hlhs : n.child? .lhs = some lhs) (hname : lhs.kind = .identifier)
    (hrhs : n.child? .rhs = some rhs) :
    statement env call n = Run.located (env.place n) (do
      Run.within env.bounds.operands fun _ => n.operandDepth
      let v ← valueOf env call rhs
      let name ← env.text lhs
      match (← Run.scopes).assign? name v with
      | none => Run.fault (.undefinedAssignment name)
      | some scopes => do
        Run.modifyScopes fun _ => scopes
        return .value v) := by
  rw [statement]
  simp only [hk]
  refine congrArg _ (congrArg _ (funext fun _ => ?_))
  rw [hlhs]
  show (expectKind .identifier (some lhs) >>= _) = _
  rw [show (expectKind .identifier (some lhs) : Run φ Node) = pure lhs from if_pos hname,
    Run.pure_bind]
  split
  · rename_i h
    cases hrhs.symm.trans h
  · rename_i rhs' h
    cases hrhs.symm.trans h
    rfl

theorem statement_return_none (hk : n.kind = .returnStatement) (hvalue : n.child? .value = none) :
    statement env call n = Run.located (env.place n) (do
      Run.within env.bounds.operands fun _ => n.operandDepth
      return .returned .undefined) := by
  rw [statement]
  simp only [hk]
  refine congrArg _ (congrArg _ (funext fun _ => ?_))
  split
  · rfl
  · rename_i inner h
    cases hvalue.symm.trans h

theorem statement_return_some {inner : Node} (hk : n.kind = .returnStatement)
    (hvalue : n.child? .value = some inner) :
    statement env call n = Run.located (env.place n) (do
      Run.within env.bounds.operands fun _ => n.operandDepth
      return .returned (← valueOf env call inner)) := by
  rw [statement]
  simp only [hk]
  refine congrArg _ (congrArg _ (funext fun _ => ?_))
  split
  · rename_i h
    cases hvalue.symm.trans h
  · rename_i inner' h
    cases hvalue.symm.trans h
    rfl

/-- Giving a variable its value, where it is given one. -/
def initial (env : Env φ) (call : Caller φ) (name : String) : Option Node → Run φ Unit
  | none => pure ()
  | some inner => do
    let v ← valueOf env call inner
    Run.modifyScopes fun s => s.declare name v

theorem declarators_cons {variable_ : Node} {rest : List Node}
    (hk : n.kind = .variableDeclarator) (hvariable : n.child? .variable_ = some variable_) :
    declarators env call (n :: rest) = (do
      let name ← env.text variable_
      Run.modifyScopes fun s => s.declare name .undefined
      initial env call name (n.child? .value)
      declarators env call rest) := by
  rw [declarators]
  rw [show (expectKind .variableDeclarator (some n) : Run φ Node) = pure n from if_pos hk]
  show (match n.child? .variable_ with | none => _ | some v => _) = _
  rw [hvariable]
  refine congrArg _ (funext fun name => congrArg _ (funext fun _ => ?_))
  split
  · rename_i h
    rw [h]
    rfl
  · rename_i inner h
    rw [h]
    refine congrArg _ (funext fun _ => ?_)
    exact (Run.bind_assoc _ _ _).symm

-- ============================================================== interfaces

omit [Callable φ] [DecidableEq φ] in
theorem interfaces_cons {path name : Node} {rest : List Node} (hk : n.kind = .interface_)
    (hpath : n.child? .path = some path) (hname : n.child? .module_ = some name)
    (hkind : name.kind = .identifier) :
    interfaces env (n :: rest) = (do
      Run.located (env.place n) do
        let path ← stringText env path
        let name ← env.text name
        let (_, scopes) ← Run.lift
          (Foreign.register env.bounds env.host env.config path name (← Run.scopes))
        Run.modifyScopes fun _ => scopes
      interfaces env rest) := by
  rw [interfaces]
  rw [show (expectKind .interface_ (some n) : Run φ Node) = pure n from if_pos hk]
  refine congrArg (Run.located (env.place n) · >>= fun _ => interfaces env rest) ?_
  show (match n.child? .path with | none => _ | some p => _) = _
  rw [hpath]
  refine congrArg (stringText env path >>= ·) (funext fun path => ?_)
  rw [hname]
  show (expectKind .identifier (some name) >>= _) = _
  rw [show (expectKind .identifier (some name) : Run φ Node) = pure name from if_pos hkind]
  rfl

end Eval

end SamScript
