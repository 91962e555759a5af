/-
The evaluator as an open recursion. `Ways` holds one way to do each kind of
work, and `Ways.step` is the text of the evaluator with every use of itself
replaced by a use of those ways; whether another call may become active is
decided by counting the active ones. Nothing here counts down and nothing
recurs, so iterating `step` from ways that do anything at all unfolds the
recursion level by level.

One level agrees with the evaluator wherever the ways agree with it on what is
begun (`Ways.perform_step`): `Begins` has a rule for every use of the
evaluator in itself.
-/
import SamScript.Proofs.Eval.Reached

namespace SamScript

variable {φ α β : Type}

-- ================================================== steps side by side

namespace Run

variable {x y : Run φ α} {f g : α → Run φ β} {s : RunState φ}

theorem bind_agree (hx : x s = y s) (h : ∀ a t, y s = (.ok a, t) → f a t = g a t) :
    (x >>= f) s = (y >>= g) s := by
  rw [bind_apply, bind_apply, hx]
  rcases hr : y s with ⟨e | a, t⟩
  · rfl
  · exact h a t hr

/-- After a step that only looks the state is the same. -/
theorem Still.bind_agree (hx : Still x) (h : ∀ a, (x s).1 = .ok a → f a s = g a s) :
    (x >>= f) s = (x >>= g) s := by
  refine Run.bind_agree rfl fun a t ha => ?_
  obtain rfl := hx.state_eq ha
  exact h a (congrArg Prod.fst ha)

/-- A settled step comes to the same in all states. -/
theorem Settled.bind_agree (hx : Settled x) (h : ∀ a, x = pure a → f a s = g a s) :
    (x >>= f) s = (x >>= g) s := by
  rcases hx with ⟨a, rfl⟩ | ⟨e, rfl⟩
  · exact h a rfl
  · rfl

theorem located_agree (hx : x s = y s) (place : Place) : located place x s = located place y s := by
  unfold Run.located
  rw [hx]

/-- How many calls are active. -/
def activeCalls : Run φ Nat :=
  fun s => (.ok s.calls.length, s)

end Run

namespace Eval

variable [Callable φ] [DecidableEq φ]

-- ================================================================ one level

/-- One way to do each kind of work. -/
structure Ways (φ : Type := FunctionRef) where
  expr : Node → Run φ (Signal φ)
  valueOf : Node → Run φ (Value φ)
  values : List Node → Run φ (List (Value φ))
  block : Frame φ → Node → Run φ (Signal φ)
  statements : List Node → Run φ (Signal φ)
  statement : Node → Run φ (Signal φ)
  declarators : List Node → Run φ Unit
  call : Caller φ

namespace Ways

variable (env : Env φ) (w : Ways φ)

/-- An expression, what is in it done in the given ways; failures have no
place yet. -/
def exprCore (n : Node) : Run φ (Signal φ) :=
  match n.kind with
  | .literal => do return .value (← literal env n)
  | .identifier => do return .value (← variableValue env n)
  | .lambdaExpression => do return .value (← lambda env n)
  | .binaryExpression =>
    match n.child? .left with
    | none => misshapen Field.left.text n.kind
    | some left => do
      let a ← w.valueOf left
      match n.child? .right with
      | none => misshapen Field.right.text n.kind
      | some right => do
        let b ← w.valueOf right
        let op ← operatorText env n
        return .value (← applyOperator op a b)
  | .nestedIdentifier =>
    match n.child? .parent with
    | none => misshapen Field.parent.text n.kind
    | some parent => do
      let v ← w.valueOf parent
      match n.child? .name with
      | none => misshapen Field.name.text n.kind
      | some name => do
        let name ← env.text name
        return .value (← orFault (attributeOf v name))
  | .arrayExpression => do return .value (.array (← w.values n.named))
  | .ifExpression =>
    match n.child? .condition with
    | none => misshapen Field.condition.text n.kind
    | some condition => do
      match ← w.valueOf condition with
      | .int test =>
        if test ≠ 0 then
          match n.child? .consequence with
          | none => misshapen Field.consequence.text n.kind
          | some consequence => w.block [] consequence
        else
          match n.child? .else_ with
          | none => return .value .undefined
          | some alternative =>
            if alternative.kind = .ifExpression then w.expr alternative
            else w.block [] alternative
      | v => Run.fault (.conditionNotInt v.kind)
  | .callExpression =>
    match n.child? .function with
    | none => misshapen Field.function.text n.kind
    | some callee =>
      if callee.kind = .identifier then do
        let name ← env.text callee
        let target ← orNotCallable (target (← Run.scopes) name)
        let arguments ← w.values (n.inRole .arguments)
        return .value (← dispatch env w.call name arguments target)
      else do
        let target ← orNotCallable (valueTarget (← w.valueOf callee))
        let arguments ← w.values (n.inRole .arguments)
        return .value (← dispatch env w.call "<anonymous>" arguments target)
  | kind => misshapen "expression" kind

def exprBy (n : Node) : Run φ (Signal φ) :=
  Run.located (env.place n) (exprCore env w n)

/-- An expression that has to come to a value. -/
def valueBy (n : Node) : Run φ (Value φ) := do
  match ← w.expr n with
  | .value v => pure v
  | .returned _ => Run.located (env.place n) (Run.fault .returnAsValue)

def valuesBy : List Node → Run φ (List (Value φ))
  | [] => pure []
  | n :: rest => do
    let v ← w.valueOf n
    return v :: (← w.values rest)

def blockBy (bindings : Frame φ) (n : Node) : Run φ (Signal φ) :=
  if n.kind = .statementBlock then Run.inScope bindings (w.statements n.named)
  else misshapen NodeKind.statementBlock.text n.kind

def statementsBy : List Node → Run φ (Signal φ)
  | [] => return .value .undefined
  | n :: rest => do
    match ← w.statement n with
    | .returned v => return .returned v
    | .value _ => w.statements rest

/-- A statement, what is in it done in the given ways; failures have no place
yet. -/
def statementCore (n : Node) : Run φ (Signal φ) := do
  Run.within env.bounds.operands fun _ => n.operandDepth
  match n.kind with
  | .expressionStatement =>
    match n.named with
    | [] => Run.fail (.abort .missingExpression)
    | inner :: _ => w.expr inner
  | .variableDeclaration => do
    w.declarators n.named
    return .value .undefined
  | .assignment =>
    match n.child? .lhs with
    | none => misshapen Field.lhs.text n.kind
    | some lhs => do
      let lhs ← expectKind .identifier (some lhs)
      match n.child? .rhs with
      | none => misshapen Field.rhs.text n.kind
      | some rhs => do
        let v ← w.valueOf rhs
        let name ← env.text lhs
        match (← Run.scopes).assign? name v with
        | none => Run.fault (.undefinedAssignment name)
        | some scopes => do
          Run.modifyScopes fun _ => scopes
          return .value v
  | .returnStatement =>
    match n.child? .value with
    | none => return .returned .undefined
    | some inner => do return .returned (← w.valueOf inner)
  | kind => misshapen "statement" kind

def statementBy (n : Node) : Run φ (Signal φ) :=
  Run.located (env.place n) (statementCore env w n)

def declaratorsBy : List Node → Run φ Unit
  | [] => pure ()
  | n :: rest => do
    let _ ← expectKind .variableDeclarator (some n)
    match n.child? .variable_ with
    | none => misshapen Field.variable_.text n.kind
    | some variable_ => do
      let name ← env.text variable_
      Run.modifyScopes fun s => s.declare name .undefined
      match n.child? .value with
      | none => w.declarators rest
      | some inner => do
        let v ← w.valueOf inner
        Run.modifyScopes fun s => s.declare name v
        w.declarators rest

/-- A call, refused if as many are active as the limit allows. -/
def callBy : Caller φ
  | name, f, arguments => do
    let parameters := Callable.parameters f
    if arguments.length ≠ parameters.length then
      Run.fault (.arity parameters.length arguments.length)
    else
      let body ← expectKind .statementBlock (env.body? f)
      if env.config.maxCallDepth ≤ (← Run.activeCalls) then
        Run.fault (.callDepth env.config.maxCallDepth)
      else
        Run.within env.bounds.calls fun s => s.calls.length
        let bindings := Bindings.ofList (parameters.zip arguments)
        match ← Run.inCall name (w.block bindings body) with
        | .returned v => return v
        | .value _ => return .undefined

/-- One level of the evaluator. -/
def step : Ways φ where
  expr := exprBy env w
  valueOf := valueBy env w
  values := valuesBy w
  block := blockBy w
  statements := statementsBy w
  statement := statementBy env w
  declarators := declaratorsBy env w
  call := callBy env w

/-- Does work in the given ways. -/
def perform : (work : Work φ) → Run φ work.Result
  | .expr n => w.expr n
  | .valueOf n => w.valueOf n
  | .values ns => w.values ns
  | .block bindings n => w.block bindings n
  | .statements ns => w.statements ns
  | .statement n => w.statement n
  | .declarators ns => w.declarators ns
  | .call name f arguments => w.call name f arguments
  | .interface_ n => interfaces env [n]

end Ways

-- ============================================================ the evaluator

/-- The evaluator's own ways, given the way calls are entered. -/
def ways (env : Env φ) (call : Caller φ) : Ways φ where
  expr := expr env call
  valueOf := valueOf env call
  values := values env call
  block := block env call
  statements := statements env call
  statement := statement env call
  declarators := declarators env call
  call := call

variable {env : Env φ} {call : Caller φ}

open Ways

theorem expr_eq_exprBy (n : Node) : expr env call n = exprBy env (ways env call) n := by
  rw [expr, exprBy, exprCore]
  refine congrArg _ ?_
  cases n.kind with
  | binaryExpression =>
    dsimp only
    split
    · rename_i h
      rw [h]
    · rename_i left h
      rw [h]
      refine congrArg _ (funext fun a => ?_)
      split
      · rename_i h'
        rw [h']
      · rename_i right h'
        rw [h']
        rfl
  | nestedIdentifier =>
    dsimp only
    split
    · rename_i h
      rw [h]
    · rename_i parent h
      rw [h]
      rfl
  | ifExpression =>
    dsimp only
    split
    · rename_i h
      rw [h]
    · rename_i condition h
      rw [h]
      refine congrArg _ (funext fun v => ?_)
      cases v with
      | int test =>
        refine ite_congr rfl (fun _ => ?_) fun _ => ?_
        · split
          · rename_i h'
            rw [h']
          · rename_i consequence h'
            rw [h']
            rfl
        · split
          · rename_i h'
            rw [h']
          · rename_i alternative h'
            rw [h']
            rfl
      | _ => rfl
  | callExpression =>
    dsimp only
    split
    · rename_i h
      rw [h]
    · rename_i callee h
      rw [h]
      rfl
  | _ => rfl

theorem valueOf_eq_valueBy (n : Node) : valueOf env call n = valueBy env (ways env call) n := by
  rw [valueOf]
  rfl

theorem values_eq_valuesBy (ns : List Node) : values env call ns = valuesBy (ways env call) ns := by
  cases ns <;> (rw [values]; rfl)

theorem block_eq_blockBy (bindings : Frame φ) (n : Node) :
    block env call bindings n = blockBy (ways env call) bindings n := by
  rw [block]
  rfl

theorem statements_eq_statementsBy (ns : List Node) :
    statements env call ns = statementsBy (ways env call) ns := by
  cases ns <;> (rw [statements]; rfl)

theorem statement_eq_statementBy (n : Node) :
    statement env call n = statementBy env (ways env call) n := by
  rw [statement, statementBy, statementCore]
  refine congrArg _ (congrArg _ (funext fun _ => ?_))
  cases n.kind with
  | expressionStatement =>
    dsimp only
    split
    · rename_i h
      rw [h]
    · rename_i inner rest h
      rw [h]
      rfl
  | assignment =>
    dsimp only
    rcases n.child? .lhs with _ | lhs
    · rfl
    · dsimp only
      refine congrArg _ (funext fun lhs => ?_)
      split
      · rename_i h
        rw [h]
      · rename_i rhs h
        rw [h]
        rfl
  | returnStatement =>
    dsimp only
    split
    · rename_i h
      rw [h]
    · rename_i inner h
      rw [h]
      rfl
  | _ => rfl

theorem declarators_eq_declaratorsBy (ns : List Node) :
    declarators env call ns = declaratorsBy env (ways env call) ns := by
  cases ns with
  | nil =>
    rw [declarators]
    rfl
  | cons n rest =>
    rw [declarators, declaratorsBy]
    refine congrArg _ (funext fun _ => ?_)
    rcases n.child? .variable_ with _ | variable_
    · rfl
    · refine congrArg _ (funext fun name => congrArg _ (funext fun _ => ?_))
      split
      · rename_i h
        rw [h]
        rfl
      · rename_i inner h
        rw [h]
        rfl

-- =============================================================== agreement

open Run

/-- Whether ways do whatever an activation begins as the evaluator does it. -/
def Ways.AgreeBelow (w : Ways φ) (env : Env φ) (x : Activation φ) : Prop :=
  ∀ y, Begins env x y → w.perform env y.work y.state = y.outcome env

variable {w : Ways φ} {free : Nat} {s : RunState φ} {n : Node} {ns : List Node}

theorem exprBy_agrees (h : w.AgreeBelow env ⟨free, .expr n, s⟩) :
    exprBy env w n s = expr env (enter env free) n s := by
  rw [expr_eq_exprBy, exprBy, exprBy]
  refine located_agree ?_ _
  unfold exprCore
  cases hk : n.kind with
  | binaryExpression =>
    dsimp only
    rcases hl : n.child? .left with _ | left
    · rfl
    · refine bind_agree (h _ (.left hk hl)) fun a t ha => ?_
      rcases hr : n.child? .right with _ | right
      · rfl
      · exact bind_agree (h _ (.right hk hl ha hr)) fun b u _ => rfl
  | nestedIdentifier =>
    dsimp only
    rcases hp : n.child? .parent with _ | parent
    · rfl
    · exact bind_agree (h _ (.parent hk hp)) fun v t _ => rfl
  | arrayExpression => exact bind_agree (h _ (.items hk)) fun vs t _ => rfl
  | ifExpression =>
    dsimp only
    rcases hc : n.child? .condition with _ | condition
    · rfl
    · refine bind_agree (h _ (.condition hk hc)) fun v t hv => ?_
      cases v with
      | int test =>
        by_cases htest : test ≠ 0
        · simp only [if_pos htest]
          rcases hq : n.child? .consequence with _ | consequence
          · rfl
          · exact h _ (.consequence hk hc hv htest hq)
        · simp only [if_neg htest]
          rcases ha : n.child? .else_ with _ | alternative
          · rfl
          · by_cases hif : alternative.kind = .ifExpression
            · simp only [if_pos hif]
              exact h _ (.elseIf hk hc hv htest ha hif)
            · simp only [if_neg hif]
              exact h _ (.else_ hk hc hv htest ha hif)
      | _ => rfl
  | callExpression =>
    dsimp only
    rcases hf : n.child? .function with _ | callee
    · rfl
    · by_cases hname : callee.kind = .identifier
      · simp only [if_pos hname]
        refine (env.settled_text callee).bind_agree fun name htext => ?_
        refine still_scopes.bind_agree fun scopes hscopes => ?_
        cases hscopes
        refine bind_agree rfl fun found s' hfound => ?_
        obtain ⟨rfl, htarget⟩ := of_orNotCallable hfound
        refine bind_agree (h _ (.nameArguments hk hf hname htext htarget)) fun vs t hvs => ?_
        refine bind_agree ?_ fun v u _ => rfl
        cases found with
        | function f => exact h _ (.nameCall hk hf hname htext htarget hvs)
        | foreign | program => rfl
      · simp only [if_neg hname]
        refine bind_agree (h _ (.callee hk hf hname)) fun v t hv => ?_
        refine bind_agree rfl fun found s' hfound => ?_
        obtain ⟨rfl, htarget⟩ := of_orNotCallable hfound
        refine bind_agree (h _ (.valueArguments hk hf hname hv htarget)) fun vs u hvs => ?_
        refine bind_agree ?_ fun v' u' _ => rfl
        cases found with
        | function f => exact h _ (.valueCall hk hf hname hv htarget hvs)
        | foreign | program => rfl
  | _ => rfl

theorem valueBy_agrees (h : w.AgreeBelow env ⟨free, .valueOf n, s⟩) :
    valueBy env w n s = valueOf env (enter env free) n s := by
  rw [valueOf_eq_valueBy]
  exact bind_agree (h _ .signal) fun signal t _ => rfl

theorem valuesBy_agrees (h : w.AgreeBelow env ⟨free, .values ns, s⟩) :
    valuesBy w ns s = values env (enter env free) ns s := by
  rw [values_eq_valuesBy]
  cases ns with
  | nil => rfl
  | cons n rest =>
    refine bind_agree (h _ .first) fun v t hv => ?_
    exact bind_agree (h _ (.others hv)) fun vs u _ => rfl

theorem blockBy_agrees {bindings : Frame φ} (h : w.AgreeBelow env ⟨free, .block bindings n, s⟩) :
    blockBy w bindings n s = block env (enter env free) bindings n s := by
  rw [block_eq_blockBy, blockBy, blockBy]
  by_cases hk : n.kind = .statementBlock
  · rw [if_pos hk, if_pos hk]
    have hbody := h _ (.body hk)
    exact congrArg (fun r : Except Failure (Signal φ) × RunState φ =>
      (r.1, { r.2 with scopes := r.2.scopes.cutTo s.scopes.height })) hbody
  · rw [if_neg hk, if_neg hk]

theorem statementsBy_agrees (h : w.AgreeBelow env ⟨free, .statements ns, s⟩) :
    statementsBy w ns s = statements env (enter env free) ns s := by
  rw [statements_eq_statementsBy]
  cases ns with
  | nil => rfl
  | cons n rest =>
    refine bind_agree (h _ .statement) fun signal t hn => ?_
    cases signal with
    | returned v => rfl
    | value v => exact h _ (.next hn)

theorem statementBy_agrees (h : w.AgreeBelow env ⟨free, .statement n, s⟩) :
    statementBy env w n s = statement env (enter env free) n s := by
  rw [statement_eq_statementBy, statementBy, statementBy]
  refine located_agree (bind_agree rfl fun _ t hadmitted => ?_) _
  obtain rfl := (still_within _ _).state_eq hadmitted
  cases hk : n.kind with
  | expressionStatement =>
    dsimp only
    rcases hi : n.named with _ | ⟨inner, rest⟩
    · rfl
    · exact h _ (.plain hk hadmitted hi)
  | variableDeclaration => exact bind_agree (h _ (.declaration hk hadmitted)) fun _ t _ => rfl
  | assignment =>
    dsimp only
    rcases hl : n.child? .lhs with _ | lhs
    · rfl
    · refine (settled_expectKind _ _).bind_agree fun m hm => ?_
      obtain ⟨hm, hname⟩ := of_expectKind hm
      cases hm
      rcases hr : n.child? .rhs with _ | rhs
      · rfl
      · exact bind_agree (h _ (.assigned hk hadmitted hl hname hr)) fun v t _ => rfl
  | returnStatement =>
    dsimp only
    rcases hi : n.child? .value with _ | inner
    · rfl
    · exact bind_agree (h _ (.returned hk hadmitted hi)) fun v t _ => rfl
  | _ => rfl

theorem declaratorsBy_agrees (h : w.AgreeBelow env ⟨free, .declarators ns, s⟩) :
    declaratorsBy env w ns s = declarators env (enter env free) ns s := by
  rw [declarators_eq_declaratorsBy]
  cases ns with
  | nil => rfl
  | cons n rest =>
    refine (settled_expectKind _ _).bind_agree fun m hm => ?_
    obtain ⟨hm, hk⟩ := of_expectKind hm
    cases hm
    rcases hv : n.child? .variable_ with _ | variable_
    · rfl
    · refine (env.settled_text variable_).bind_agree fun name htext => ?_
      refine bind_agree rfl fun _ t ht => ?_
      cases ht
      rcases hi : n.child? .value with _ | inner
      · exact h _ (.bare hk hv htext hi)
      · refine bind_agree (h _ (.initializer hk hv htext hi)) fun v t hinner => ?_
        refine bind_agree rfl fun _ u hu => ?_
        cases hu
        exact h _ (.initialized hk hv htext hi hinner)

/-- Counting the active calls and counting down those that are free come to
the same. -/
theorem callBy_agrees {name : String} {f : φ} {arguments : List (Value φ)}
    (hfree : free = env.config.maxCallDepth - s.calls.length)
    (h : w.AgreeBelow env ⟨free, .call name f arguments, s⟩) :
    callBy env w name f arguments s = enter env free name f arguments s := by
  have hactive {A B : Run φ (Value φ)} : (activeCalls >>= fun active =>
      if env.config.maxCallDepth ≤ active then A else B) s
        = if env.config.maxCallDepth ≤ s.calls.length then A s else B s := by
    rw [bind_apply]
    exact apply_ite (fun x : Run φ (Value φ) => x s) _ _ _
  by_cases hlength : arguments.length ≠ (Callable.parameters f).length
  · cases free <;> (rw [enter, callBy]; simp only [if_pos hlength])
  · cases free with
    | zero =>
      rw [enter, callBy]
      simp only [if_neg hlength]
      refine (settled_expectKind _ _).bind_agree fun body _ => ?_
      rw [hactive, if_pos (by omega)]
    | succ free =>
      rw [enter, callBy]
      simp only [if_neg hlength]
      refine (settled_expectKind _ _).bind_agree fun body hbody => ?_
      obtain ⟨hbody, hk⟩ := of_expectKind hbody
      rw [hactive, if_neg (by omega)]
      refine bind_agree rfl fun _ t hwithin => ?_
      obtain rfl := (still_within _ _).state_eq hwithin
      refine bind_agree ?_ fun signal t _ => rfl
      have hblock := h _ (.entered (Decidable.not_not.1 hlength) hbody hk hwithin)
      exact congrArg (fun r : Except Failure (Signal φ) × RunState φ =>
        (r.1, { r.2 with calls := r.2.calls.tail })) hblock

/-- One level over ways that agree with the evaluator on whatever is begun
does the work as the evaluator does it. -/
theorem Ways.perform_step {x : Activation φ} {w : Ways φ}
    (hfree : x.free = env.config.maxCallDepth - x.state.calls.length)
    (h : w.AgreeBelow env x) : (w.step env).perform env x.work x.state = x.outcome env := by
  obtain ⟨free, work, s⟩ := x
  cases work with
  | expr n => exact exprBy_agrees h
  | valueOf n => exact valueBy_agrees h
  | values ns => exact valuesBy_agrees h
  | block bindings n => exact blockBy_agrees h
  | statements ns => exact statementsBy_agrees h
  | statement n => exact statementBy_agrees h
  | declarators ns => exact declaratorsBy_agrees h
  | call name f arguments => exact callBy_agrees hfree h
  | interface_ n => rfl

end Eval

end SamScript
