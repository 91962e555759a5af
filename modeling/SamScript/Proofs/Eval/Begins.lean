/-
What evaluation begins. The evaluator is a handful of functions that call each
other; `Work` names a call of one of them, `Activation` is such a call in a
state, with so many calls of functions still free, and `Begins` says which
activations another one begins, and in which states, one rule for each place
where the evaluator's text calls itself. Everything about the course of a run
is said through it: what is in progress when something happens
(`InProgress`), which activations a run comes to (`Reached`), and that the
calls still free and the nodes still to come only ever grow fewer
(`Begins.rank_lt`).
-/
import SamScript.Proofs.Eval.Discipline
import SamScript.Proofs.Tree.Preorder

namespace SamScript.Eval

variable {φ : Type}

-- ================================================================= work

/-- A call of one of the evaluator's functions. -/
inductive Work (φ : Type := FunctionRef) where
  | expr (n : Node)
  | valueOf (n : Node)
  | values (ns : List Node)
  | block (bindings : Frame φ) (n : Node)
  | statements (ns : List Node)
  | statement (n : Node)
  | declarators (ns : List Node)
  /-- The call of a function of the program. -/
  | call (name : String) (f : φ) (arguments : List (Value φ))
  /-- A declaration at the front of a program. -/
  | interface_ (n : Node)

namespace Work

/-- What work comes to if it does not fail. -/
def Result : Work φ → Type
  | .expr _ | .block _ _ | .statements _ | .statement _ => Signal φ
  | .valueOf _ | .call _ _ _ => Value φ
  | .values _ => List (Value φ)
  | .declarators _ | .interface_ _ => Unit

/-- The node whose evaluation the work is: an expression, a statement or an
interface declaration. Lists, blocks and calls are no evaluations of their
own. -/
def node? : Work φ → Option Node
  | .expr n | .valueOf n | .statement n | .interface_ n => some n
  | .values _ | .block _ _ | .statements _ | .declarators _ | .call _ _ _ => none

/-- How much is still to come before a call takes up another body: three for
each node, and one or two for the steps that only lead to it. -/
def rank : Work φ → Nat
  | .expr n | .statement n | .block _ n => 3 * n.size
  | .valueOf n => 3 * n.size + 1
  | .values ns | .statements ns | .declarators ns => 3 * Node.sizes ns + 2
  | .call _ _ _ | .interface_ _ => 0

end Work

/-- Does the work, while `free` more calls may become active. -/
def perform [Callable φ] [DecidableEq φ] (env : Env φ) (free : Nat) :
    (w : Work φ) → Run φ w.Result
  | .expr n => expr env (enter env free) n
  | .valueOf n => valueOf env (enter env free) n
  | .values ns => values env (enter env free) ns
  | .block bindings n => block env (enter env free) bindings n
  | .statements ns => statements env (enter env free) ns
  | .statement n => statement env (enter env free) n
  | .declarators ns => declarators env (enter env free) ns
  | .call name f arguments => enter env free name f arguments
  | .interface_ n => interfaces env [n]

/-- Work to be done in a state. -/
structure Activation (φ : Type := FunctionRef) where
  /-- How many more calls may become active. -/
  free : Nat
  work : Work φ
  state : RunState φ

namespace Activation

variable [Callable φ] [DecidableEq φ] (env : Env φ) (x : Activation φ)

/-- How it ends, and the state it ends in. -/
def outcome : Except Failure x.work.Result × RunState φ :=
  perform env x.free x.work x.state

/-- Whether it ends in a failure. -/
def Fails (e : Failure) : Prop :=
  (x.outcome env).1 = .error e

/-- What a failure of something that it begins becomes in it. -/
def passes (e : Failure) : Failure :=
  match x.work.node? with
  | some n => e.locate (env.place n)
  | none => e

end Activation

-- =============================================================== begins

/-- Whether a statement is not nested too deep to be begun. -/
def Admitted (env : Env φ) (n : Node) (s : RunState φ) : Prop :=
  Run.within env.bounds.operands (fun _ => n.operandDepth) s = (.ok (), s)

variable [Callable φ] [DecidableEq φ]

/-- Which activations an activation begins: one rule for each place where the
evaluator calls itself, under what holds when it gets there. -/
inductive Begins (env : Env φ) : Activation φ → Activation φ → Prop where
  -- expressions
  | left {free n s left} : n.kind = .binaryExpression → n.child? .left = some left →
      Begins env ⟨free, .expr n, s⟩ ⟨free, .valueOf left, s⟩
  | right {free n s left a t right} : n.kind = .binaryExpression → n.child? .left = some left →
      valueOf env (enter env free) left s = (.ok a, t) → n.child? .right = some right →
      Begins env ⟨free, .expr n, s⟩ ⟨free, .valueOf right, t⟩
  | parent {free n s parent} : n.kind = .nestedIdentifier → n.child? .parent = some parent →
      Begins env ⟨free, .expr n, s⟩ ⟨free, .valueOf parent, s⟩
  | items {free n s} : n.kind = .arrayExpression →
      Begins env ⟨free, .expr n, s⟩ ⟨free, .values n.named, s⟩
  | condition {free n s condition} : n.kind = .ifExpression →
      n.child? .condition = some condition →
      Begins env ⟨free, .expr n, s⟩ ⟨free, .valueOf condition, s⟩
  | consequence {free n s condition test t consequence} : n.kind = .ifExpression →
      n.child? .condition = some condition →
      valueOf env (enter env free) condition s = (.ok (.int test), t) → test ≠ 0 →
      n.child? .consequence = some consequence →
      Begins env ⟨free, .expr n, s⟩ ⟨free, .block [] consequence, t⟩
  | elseIf {free n s condition test t alternative} : n.kind = .ifExpression →
      n.child? .condition = some condition →
      valueOf env (enter env free) condition s = (.ok (.int test), t) → ¬test ≠ 0 →
      n.child? .else_ = some alternative → alternative.kind = .ifExpression →
      Begins env ⟨free, .expr n, s⟩ ⟨free, .expr alternative, t⟩
  | else_ {free n s condition test t alternative} : n.kind = .ifExpression →
      n.child? .condition = some condition →
      valueOf env (enter env free) condition s = (.ok (.int test), t) → ¬test ≠ 0 →
      n.child? .else_ = some alternative → alternative.kind ≠ .ifExpression →
      Begins env ⟨free, .expr n, s⟩ ⟨free, .block [] alternative, t⟩
  | nameArguments {free n s callee name found} : n.kind = .callExpression →
      n.child? .function = some callee → callee.kind = .identifier →
      env.text callee = pure name → target s.scopes name = .ok found →
      Begins env ⟨free, .expr n, s⟩ ⟨free, .values (n.inRole .arguments), s⟩
  | nameCall {free n s callee name f arguments t} : n.kind = .callExpression →
      n.child? .function = some callee → callee.kind = .identifier →
      env.text callee = pure name → target s.scopes name = .ok (.function f) →
      values env (enter env free) (n.inRole .arguments) s = (.ok arguments, t) →
      Begins env ⟨free, .expr n, s⟩ ⟨free, .call name f arguments, t⟩
  | callee {free n s callee} : n.kind = .callExpression → n.child? .function = some callee →
      callee.kind ≠ .identifier →
      Begins env ⟨free, .expr n, s⟩ ⟨free, .valueOf callee, s⟩
  | valueArguments {free n s callee v t found} : n.kind = .callExpression →
      n.child? .function = some callee → callee.kind ≠ .identifier →
      valueOf env (enter env free) callee s = (.ok v, t) → valueTarget v = .ok found →
      Begins env ⟨free, .expr n, s⟩ ⟨free, .values (n.inRole .arguments), t⟩
  | valueCall {free n s callee v t f arguments u} : n.kind = .callExpression →
      n.child? .function = some callee → callee.kind ≠ .identifier →
      valueOf env (enter env free) callee s = (.ok v, t) → valueTarget v = .ok (.function f) →
      values env (enter env free) (n.inRole .arguments) t = (.ok arguments, u) →
      Begins env ⟨free, .expr n, s⟩ ⟨free, .call "<anonymous>" f arguments, u⟩
  | signal {free n s} : Begins env ⟨free, .valueOf n, s⟩ ⟨free, .expr n, s⟩
  | first {free n rest s} : Begins env ⟨free, .values (n :: rest), s⟩ ⟨free, .valueOf n, s⟩
  | others {free n rest s v t} : valueOf env (enter env free) n s = (.ok v, t) →
      Begins env ⟨free, .values (n :: rest), s⟩ ⟨free, .values rest, t⟩
  -- statements
  | body {free bindings n s} : n.kind = .statementBlock →
      Begins env ⟨free, .block bindings n, s⟩
        ⟨free, .statements n.named, { s with scopes := s.scopes.push bindings }⟩
  | statement {free n rest s} :
      Begins env ⟨free, .statements (n :: rest), s⟩ ⟨free, .statement n, s⟩
  | next {free n rest s v t} : Eval.statement env (enter env free) n s = (.ok (.value v), t) →
      Begins env ⟨free, .statements (n :: rest), s⟩ ⟨free, .statements rest, t⟩
  | plain {free n s inner rest} : n.kind = .expressionStatement → Admitted env n s →
      n.named = inner :: rest →
      Begins env ⟨free, .statement n, s⟩ ⟨free, .expr inner, s⟩
  | declaration {free n s} : n.kind = .variableDeclaration → Admitted env n s →
      Begins env ⟨free, .statement n, s⟩ ⟨free, .declarators n.named, s⟩
  | assigned {free n s lhs rhs} : n.kind = .assignment → Admitted env n s →
      n.child? .lhs = some lhs → lhs.kind = .identifier → n.child? .rhs = some rhs →
      Begins env ⟨free, .statement n, s⟩ ⟨free, .valueOf rhs, s⟩
  | returned {free n s inner} : n.kind = .returnStatement → Admitted env n s →
      n.child? .value = some inner →
      Begins env ⟨free, .statement n, s⟩ ⟨free, .valueOf inner, s⟩
  | initializer {free n rest s variable_ name inner} : n.kind = .variableDeclarator →
      n.child? .variable_ = some variable_ → env.text variable_ = pure name →
      n.child? .value = some inner →
      Begins env ⟨free, .declarators (n :: rest), s⟩
        ⟨free, .valueOf inner, { s with scopes := s.scopes.declare name .undefined }⟩
  | bare {free n rest s variable_ name} : n.kind = .variableDeclarator →
      n.child? .variable_ = some variable_ → env.text variable_ = pure name →
      n.child? .value = none →
      Begins env ⟨free, .declarators (n :: rest), s⟩
        ⟨free, .declarators rest, { s with scopes := s.scopes.declare name .undefined }⟩
  | initialized {free n rest s variable_ name inner v t} : n.kind = .variableDeclarator →
      n.child? .variable_ = some variable_ → env.text variable_ = pure name →
      n.child? .value = some inner →
      valueOf env (enter env free) inner
        { s with scopes := s.scopes.declare name .undefined } = (.ok v, t) →
      Begins env ⟨free, .declarators (n :: rest), s⟩
        ⟨free, .declarators rest, { t with scopes := t.scopes.declare name v }⟩
  -- calls
  | entered {free name f arguments s body} :
      arguments.length = (Callable.parameters f).length → env.body? f = some body →
      body.kind = .statementBlock →
      Run.within env.bounds.calls (fun s => s.calls.length) s = (.ok (), s) →
      Begins env ⟨free + 1, .call name f arguments, s⟩
        ⟨free, .block (Bindings.ofList ((Callable.parameters f).zip arguments)) body,
          { s with calls := name :: s.calls }⟩

-- ============================================================= programs

/-- The declarations at the front of a program. -/
def declarations (root : Node) : List Node :=
  match root.named with
  | first :: _ => if first.kind = .interfaces then first.named else []
  | [] => []

/-- The statements of a program. -/
def mainStatements (root : Node) : List Node :=
  match root.named with
  | first :: rest => if first.kind = .interfaces then rest else first :: rest
  | [] => []

/-- What a program itself begins: its declarations in order, and then its
statements in order, each when what stands before it has ended well. -/
inductive Top (env : Env φ) : Activation φ → Prop where
  | declaration {before n after s} : env.root.kind = .sourceFile →
      declarations env.root = before ++ n :: after → interfaces env before {} = (.ok (), s) →
      Top env ⟨env.config.maxCallDepth, .interface_ n, s⟩
  | statement {before n after s t} : env.root.kind = .sourceFile →
      interfaces env (declarations env.root) {} = (.ok (), s) →
      mainStatements env.root = before ++ n :: after →
      topLevel env (enter env env.config.maxCallDepth) before s = (.ok (), t) →
      Top env ⟨env.config.maxCallDepth, .statement n, t⟩

/-- What is in progress at a moment of a run, the latest first. -/
inductive InProgress (env : Env φ) : List (Activation φ) → Prop where
  | top {x} : Top env x → InProgress env [x]
  | begun {x y xs} : InProgress env (x :: xs) → Begins env x y → InProgress env (y :: x :: xs)

/-- What a run comes to. -/
inductive Reached (env : Env φ) : Activation φ → Prop where
  | top {x} : Top env x → Reached env x
  | begun {x y} : Reached env x → Begins env x y → Reached env y

variable {env : Env φ}

/-- What is in progress was reached. -/
theorem InProgress.reached {xs : List (Activation φ)} (h : InProgress env xs) :
    ∀ x ∈ xs, Reached env x := by
  induction h with
  | top h => exact List.forall_mem_singleton.2 (.top h)
  | begun _ hb ih => exact List.forall_mem_cons.2 ⟨.begun (ih _ List.mem_cons_self) hb, ih⟩

/-- What was reached was in progress at some moment. -/
theorem Reached.inProgress {x : Activation φ} (h : Reached env x) :
    ∃ xs, InProgress env (x :: xs) := by
  induction h with
  | top h => exact ⟨[], .top h⟩
  | begun _ hb ih =>
    obtain ⟨xs, hx⟩ := ih
    exact ⟨_, .begun hx hb⟩

-- ============================================================ the measure

/-- What is begun has less to come, or is the body of a function, with one
call fewer to spare. -/
theorem Begins.descends {x y : Activation φ} (h : Begins env x y) :
    y.free = x.free ∧ y.work.rank < x.work.rank ∨
      y.free + 1 = x.free ∧ ∃ f body, env.body? f = some body ∧ y.work.rank = 3 * body.size := by
  have child {n c : Node} {field : Field} (hc : n.child? field = some c) : c.size < n.size :=
    Node.size_lt_of_child? hc
  cases h with
  | left _ hc | right _ _ _ hc | parent _ hc | condition _ hc | callee _ hc _
  | consequence _ _ _ _ hc | elseIf _ _ _ _ hc _ | else_ _ _ _ _ hc _ | assigned _ _ _ _ hc
  | returned _ _ hc =>
    have := child hc
    exact .inl ⟨rfl, by dsimp only [Work.rank]; omega⟩
  | @items _ n | @declaration _ n | @body _ _ n =>
    have := Node.sizes_named_lt n
    exact .inl ⟨rfl, by dsimp only [Work.rank]; omega⟩
  | @nameArguments _ n | @valueArguments _ n =>
    have := Node.sizes_inRole_lt n .arguments
    exact .inl ⟨rfl, by dsimp only [Work.rank]; omega⟩
  | @nameCall _ n | @valueCall _ n =>
    have := Node.size_eq n
    exact .inl ⟨rfl, by dsimp only [Work.rank]; omega⟩
  | signal => exact .inl ⟨rfl, Nat.lt_succ_self _⟩
  | @first _ n | @others _ n | @statement _ n | @next _ n | @bare _ n | @initialized _ n =>
    have := Node.size_eq n
    exact .inl ⟨rfl, by dsimp only [Work.rank, Node.sizes]; omega⟩
  | plain _ _ hc =>
    have := Node.size_lt_of_named hc
    exact .inl ⟨rfl, by dsimp only [Work.rank]; omega⟩
  | initializer _ _ _ hc =>
    have := child hc
    exact .inl ⟨rfl, by dsimp only [Work.rank, Node.sizes]; omega⟩
  | entered _ hb _ _ => exact .inr ⟨rfl, _, _, hb, rfl⟩

/-- So the calls to spare and what is to come descend together. -/
theorem Begins.rank_lt {x y : Activation φ} (h : Begins env x y) :
    Prod.Lex (· < ·) (· < ·) (y.free, y.work.rank) (x.free, x.work.rank) := by
  rcases h.descends with ⟨hfree, hrank⟩ | ⟨hfree, -⟩
  · rw [hfree]
    exact .right _ hrank
  · rw [← hfree]
    exact .left _ _ (Nat.lt_succ_self _)

/-- Nothing begins activations forever. -/
theorem Begins.wellFounded (env : Env φ) :
    WellFounded fun y x : Activation φ => Begins env x y := by
  refine Subrelation.wf (fun h => Begins.rank_lt h) ?_
  exact InvImage.wf (fun x : Activation φ => (x.free, x.work.rank))
    (Prod.lex Nat.lt_wfRel Nat.lt_wfRel).wf

end SamScript.Eval
