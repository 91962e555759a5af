/-
An else-if is an else with the if alone in its block. The block and its statement put
one more frame around the if, which binds nothing and in which the if declares nothing;
they give a failure no place that the if has not given it, and drop no value that the
if could have come to. So where trees are built alike but for such blocks, evaluation
comes to the same: down the tree by induction on the nodes, and from one call to the
next by induction on the calls that are left.
-/
import SamScript.Proofs.Eval.Abreast
import SamScript.Proofs.Eval.Equations
import SamScript.Proofs.Eval.Padding
import SamScript.Proofs.Eval.Raising
import SamScript.Proofs.Eval.Reached
import SamScript.Proofs.Tree.Nested

namespace SamScript

open Run

variable {φ α : Type}

-- ==================================================== no value but undefined

/-- Whether a signal leaves the enclosing call. -/
def Signal.isReturned : Signal φ → Bool
  | .value _ => false
  | .returned _ => true

/-- The same way out, without the value. -/
def Signal.dropped : Signal φ → Signal φ
  | .value _ => .value .undefined
  | .returned v => .returned v

namespace Run

/-- Whether a step comes to no value but the undefined one. -/
def Vacant (x : Run φ (Signal φ)) : Prop :=
  ∀ s v, (x s).1 = .ok (.value v) → v = .undefined

variable {x : Run φ (Signal φ)}

theorem vacant_fail (e : Failure) : Vacant (fail e : Run φ (Signal φ)) := by
  intro s v h
  cases h

theorem vacant_dropped (signal : Signal φ) : Vacant (pure signal.dropped) := by
  intro s v h
  cases signal with
  | value u =>
    cases h
    rfl
  | returned u => cases h

theorem Vacant.bind {y : Run φ α} {f : α → Run φ (Signal φ)} (h : ∀ a, Vacant (f a)) :
    Vacant (y >>= f) := by
  intro s v hv
  rw [bind_apply] at hv
  generalize y s = r at hv
  rcases r with ⟨e | a, t⟩
  · cases hv
  · exact h a t v hv

theorem Vacant.located (h : Vacant x) (place : Place) : Vacant (located place x) := by
  intro s v hv
  have hx := h s v
  unfold Run.located at hv
  generalize x s = r at hx hv
  rcases r with ⟨e | signal, t⟩
  · cases hv
  · exact hx hv

theorem Vacant.inScope (h : Vacant x) (frame : Frame φ) : Vacant (inScope frame x) :=
  fun _ v hv => h _ v hv

/-- Where there is no value, none is lost. -/
theorem Vacant.bind_dropped (h : Vacant x) : (x >>= fun signal => pure signal.dropped) = x := by
  funext s
  have hx := h s
  rw [bind_apply]
  generalize x s = r at hx
  rcases r with ⟨e | signal, t⟩
  · rfl
  · cases signal with
    | value v =>
      rw [hx v rfl]
      rfl
    | returned v => rfl

/-- A place is given once. -/
theorem located_located (place : Place) (x : Run φ α) :
    located place (located place x) = located place x := by
  funext s
  unfold located
  rcases x s with ⟨e | a, t⟩
  · exact congrArg (fun e => (Except.error e, t)) (Failure.locate_locate e place place)
  · rfl

end Run

namespace Eval

-- ============================================================ environments

/-- What two environments have to do with each other for trees to be evaluated alike in
them that differ in blocks around else-ifs. Bounds on operands count such blocks, so
where there are any, steps may be exhausting. -/
structure Nesting (exhausting : Prop) (env env' : Env φ) : Prop where
  host : env'.host = env.host
  config : env'.config = env.config
  bounds : env'.bounds = env.bounds
  place : ∀ {n m : Node}, m.extent = n.extent → env'.place m = env.place n
  text : ∀ {n m : Node}, m.extent = n.extent → env'.text m = env.text n
  close : ∀ {n m : Node}, m.extent = n.extent → env'.close m = env.close n
  body : ∀ f, Option.Rel Node.Nested (env.body? f) (env'.body? f)
  exhausting : env.bounds.operands ≠ none → exhausting

variable {exhausting : Prop} {shape : List Bool} {env env' : Env φ} {n m : Node}

theorem padded_expectKind {f g : Node → Run φ α} {kind : NodeKind} (hn : n.Nested m)
    (hf : n.kind = kind → Padded exhausting shape (f n) (g m)) :
    Padded exhausting shape (expectKind kind (some n) >>= f) (expectKind kind (some m) >>= g) := by
  by_cases hk : n.kind = kind
  · rw [expectKind_of_eq hk, expectKind_of_eq (hn.kind.trans hk)]
    exact hf hk
  · rw [expectKind_of_ne hk, expectKind_of_ne (hn.kind ▸ hk), hn.kind]
    exact padded_fault _

theorem target_eq {s t : Scopes φ} (hs : s.Padded shape t) (name : String) :
    target t name = target s name := by
  unfold target
  rw [hs.resolve?_eq name, hs.globals]

namespace Nesting

variable (h : Nesting exhausting env env')

include h

theorem leafwise : Leafwise Node.Nested env env' where
  kind hn := hn.kind
  isNamed hn := hn.isNamed
  parts hn hk := hn.children_of_ne fun hif => by simp [hif] at hk
  text hn _ := h.text hn.extent
  close hn hk := rel_mono (fun _ _ hab => ⟨hab.1, h.close hab.1.extent⟩)
    (Node.rel_child? (fun hab => hab.2) (hn.children_of_ne (by simp [hk])) .body)

theorem operatorText (hn : n.Nested m) : Eval.operatorText env' m = Eval.operatorText env n := by
  have hchildren := hn.children
  unfold Eval.operatorText
  generalize n.children = cs, m.children = ds at hchildren
  cases hchildren with
  | nil => rfl
  | cons _ hrest =>
    cases hrest with
    | nil => rfl
    | cons hop _ => exact h.text hop.extent

theorem padded_variableValue (hn : n.Nested m) :
    Padded exhausting shape (variableValue env n) (variableValue env' m) := by
  unfold variableValue
  rw [h.text hn.extent]
  refine (env.settled_text n).padded.bind fun name => padded_scopes_bind fun s t hs => ?_
  rw [hs.resolve?_eq name]
  cases s.resolve? name with
  | none => exact padded_fault _
  | some v => exact padded_pure v

theorem padded_launch [Callable φ] (l : Foreign.Launch φ) :
    Padded exhausting shape (launch env l) (launch env' l) :=
  Run.padded_launch h.host h.config h.bounds l

end Nesting

-- ==================================================== ifs, blocks, statements

variable [Callable φ] [DecidableEq φ] {call call' : Caller φ} {c d : Node}

theorem located_expr (n : Node) : located (env.place n) (expr env call n) = expr env call n := by
  rw [expr, located_located]

/-- The role of a node does not matter to its evaluation. -/
theorem expr_inRole (field : Option Field) (n : Node) :
    expr env call (.mk n.kind n.isNamed field n.extent n.children) = expr env call n := by
  cases n
  rw [expr, expr]
  rfl

theorem statements_singleton (n : Node) :
    statements env call [n] = statement env call n >>= fun signal => pure signal.dropped := by
  rw [statements]
  refine congrArg (statement env call n >>= ·) (funext fun signal => ?_)
  cases signal with
  | value v =>
    rw [statements]
    rfl
  | returned v => rfl

theorem vacant_statements (ns : List Node) : Vacant (statements env call ns) := by
  induction ns with
  | nil =>
    rw [statements]
    exact vacant_dropped (.value .undefined)
  | cons n ns ih =>
    rw [statements]
    refine .bind fun signal => ?_
    cases signal with
    | value v => exact ih
    | returned v => exact vacant_dropped (.returned v)

theorem vacant_block (bindings : Frame φ) (n : Node) : Vacant (block env call bindings n) := by
  rw [block]
  split
  · exact (vacant_statements _).inScope bindings
  · exact vacant_fail _

/-- An if comes to no value. -/
theorem vacant_if (n : Node) : n.kind = .ifExpression → Vacant (expr env call n) := by
  induction n using Node.children_induction with
  | step n ih =>
    intro hk
    have helse : ∀ c, n.child? .else_ = some c → c ∈ n.children :=
      fun c => Node.mem_children_of_child?
    rw [expr]
    refine .located ?_ _
    rw [hk]
    dsimp only
    generalize n.child? .condition = condition, n.child? .consequence = consequence
    generalize n.child? .else_ = alternative at helse ⊢
    cases condition with
    | none => exact vacant_fail _
    | some condition =>
      refine .bind fun v => ?_
      cases v with
      | int test =>
        dsimp only
        split
        · cases consequence with
          | none => exact vacant_fail _
          | some consequence => exact vacant_block [] consequence
        · cases alternative with
          | none => exact vacant_dropped (.value .undefined)
          | some alternative =>
            dsimp only
            split
            · rename_i halternative
              exact ih alternative (helse alternative rfl) halternative
            · exact vacant_block [] alternative
      | _ => exact vacant_fail _

/-- What the block around a named node comes to: the node, its value dropped. -/
theorem block_inBlock (hnamed : n.isNamed = true) (statement inner : Option Field) :
    ∃ measure, block env call [] (n.inBlock statement inner) =
      Run.inScope [] (located (env.place n)
        (within env.bounds.operands measure >>= fun _ => expr env call n) >>=
          fun signal => pure signal.dropped) := by
  let wrapped : Node :=
    .mk .expressionStatement true statement n.extent
      [.mk n.kind n.isNamed inner n.extent n.children]
  have hinner : wrapped.named = [.mk n.kind n.isNamed inner n.extent n.children] :=
    List.filter_cons_of_pos hnamed
  refine ⟨fun _ => wrapped.operandDepth, ?_⟩
  rw [block_eq rfl]
  show Run.inScope [] (statements env call [wrapped]) = _
  rw [statements_singleton, statement_expression rfl hinner, expr_inRole]
  rfl

-- ================================================================== nodes

/-- Whether calls come to the same. -/
def PaddedCalls (exhausting : Prop) (call call' : Caller φ) : Prop :=
  ∀ shape name f arguments,
    Padded exhausting shape (call name f arguments) (call' name f arguments)

/-- Whether every way to evaluate a node comes to the same as evaluating another one.
Statements may declare variables, so the current frame has to be one of theirs. -/
structure PaddedAt (exhausting : Prop) (env env' : Env φ) (call call' : Caller φ) (n m : Node) :
    Prop where
  nested : n.Nested m
  expr : ∀ shape, Padded exhausting shape (expr env call n) (expr env' call' m)
  valueOf : ∀ shape, Padded exhausting shape (valueOf env call n) (valueOf env' call' m)
  block : ∀ shape bindings,
    Padded exhausting shape (block env call bindings n) (block env' call' bindings m)
  statement : ∀ shape, shape.head? ≠ some true →
    Padded exhausting shape (statement env call n) (statement env' call' m)
  /-- For a declarator: its name and its value. -/
  below : ∀ field, field ≠ .else_ → Option.Rel
    (fun a b => a.Nested b ∧
      ∀ shape, Padded exhausting shape (Eval.valueOf env call a) (Eval.valueOf env' call' b))
    (n.child? field) (m.child? field)

/-- The same for the children of two nodes. Only the alternatives of ifs may differ in
kind. -/
structure PaddedChild (exhausting : Prop) (env env' : Env φ) (call call' : Caller φ)
    (parent : NodeKind) (c d : Node) : Prop where
  field : d.field = c.field
  alike : parent ≠ .ifExpression ∨ c.field ≠ some .else_ →
    PaddedAt exhausting env env' call call' c d
  otherwise : ∀ shape,
    Padded exhausting shape (otherwise env call (some c)) (otherwise env' call' (some d))

-- ------------------------------------------------------------------ lists

theorem padded_values {ns ms : List Node}
    (hns : List.Forall₂ (PaddedAt exhausting env env' call call') ns ms) :
    Padded exhausting shape (values env call ns) (values env' call' ms) := by
  induction hns with
  | nil =>
    rw [values, values]
    exact padded_pure []
  | cons hn _ ih =>
    rw [values, values]
    exact (hn.valueOf shape).bind fun v => ih.bind fun vs => padded_pure (v :: vs)

theorem padded_statements (hshape : shape.head? ≠ some true) {ns ms : List Node}
    (hns : List.Forall₂ (PaddedAt exhausting env env' call call') ns ms) :
    Padded exhausting shape (statements env call ns) (statements env' call' ms) := by
  induction hns with
  | nil =>
    rw [statements, statements]
    exact padded_pure _
  | cons hn _ ih =>
    rw [statements, statements]
    refine (hn.statement shape hshape).bind fun signal => ?_
    cases signal with
    | returned v => exact padded_pure _
    | value v => exact ih

-- --------------------------------------------------------------- children

section

variable (hchildren : List.Forall₂ (PaddedChild exhausting env env' call call' n.kind) n.children
  m.children)

include hchildren

/-- Children in a role other than that of an alternative are evaluated alike. -/
theorem rel_below (field : Field) (hne : field ≠ .else_) :
    Option.Rel (PaddedAt exhausting env env' call call') (n.child? field) (m.child? field) := by
  have hchild := Node.rel_child? (fun hab => hab.field) hchildren field
  have hfield : ∀ c, n.child? field = some c → c.field = some field :=
    fun c => Node.field_of_child?
  generalize n.child? field = o, m.child? field = o' at hchild hfield
  cases hchild with
  | none => exact .none
  | @some c _ hc =>
    refine .some (hc.alike (.inr ?_))
    rw [hfield c rfl]
    exact fun heq => hne (Option.some.inj heq)

/-- Where the parent is no if, all children are. -/
theorem alike_children (hne : n.kind ≠ .ifExpression) :
    List.Forall₂ (fun c d => PaddedAt exhausting env env' call call' c d ∧ d.field = c.field)
      n.children m.children :=
  hchildren.imp fun _ _ hc => ⟨hc.alike (.inl hne), hc.field⟩

theorem rel_named (hne : n.kind ≠ .ifExpression) :
    List.Forall₂ (PaddedAt exhausting env env' call call') n.named m.named :=
  (Node.rel_named (fun hab => hab.1.nested.isNamed) (alike_children hchildren hne)).imp
    fun _ _ hab => hab.1

theorem rel_arguments (hne : n.kind ≠ .ifExpression) :
    List.Forall₂ (PaddedAt exhausting env env' call call') (n.inRole .arguments)
      (m.inRole .arguments) :=
  (Node.rel_inRole (fun hab => hab.2) (alike_children hchildren hne) .arguments).imp
    fun _ _ hab => hab.1

end

-- ------------------------------------------------------------------ nodes

section

variable (h : Nesting exhausting env env')

include h

theorem padded_declarators (hshape : shape.head? ≠ some true) {ns ms : List Node}
    (hns : List.Forall₂ (PaddedAt exhausting env env' call call') ns ms) :
    Padded exhausting shape (declarators env call ns) (declarators env' call' ms) := by
  have hdeclare (name : String) (v : Value φ) : Padded exhausting shape
      (modifyScopes fun s => s.declare name v) (modifyScopes fun s => s.declare name v) :=
    padded_modifyScopes fun _ _ hs => hs.declare hshape name v
  induction hns with
  | nil =>
    rw [declarators, declarators]
    exact padded_pure ()
  | @cons n m _ _ hn _ ih =>
    have hname := hn.below .variable_ (by decide)
    have hvalue := hn.below .value (by decide)
    rw [declarators, declarators]
    refine padded_expectKind hn.nested fun _ => ?_
    rw [hn.nested.kind]
    generalize n.child? .variable_ = o, m.child? .variable_ = o' at hname
    cases hname with
    | none => exact padded_fault _
    | some hname =>
      dsimp only
      rw [h.text hname.1.extent]
      refine (env.settled_text _).padded.bind fun name => (hdeclare name _).bind fun _ => ?_
      generalize n.child? .value = o, m.child? .value = o' at hvalue
      cases hvalue with
      | none => exact ih
      | some hv => exact (hv.2 shape).bind fun v => (hdeclare name v).bind fun _ => ih

omit [DecidableEq φ] in
theorem padded_dispatch (hcall : PaddedCalls exhausting call call') (name : String)
    (arguments : List (Value φ)) (t : Target φ) :
    Padded exhausting shape (dispatch env call name arguments t)
      (dispatch env' call' name arguments t) := by
  cases t with
  | function f => exact hcall shape name f arguments
  | foreign template => exact h.padded_launch _
  | program => exact h.padded_launch _

theorem padded_expr (hcall : PaddedCalls exhausting call call') (hn : n.Nested m)
    (hchildren : List.Forall₂ (PaddedChild exhausting env env' call call' n.kind) n.children
      m.children) (shape : List Bool) :
    Padded exhausting shape (expr env call n) (expr env' call' m) := by
  have hchild := rel_below hchildren
  rw [expr, expr, h.place hn.extent]
  refine Padded.located ?_ _
  rw [hn.kind]
  generalize hk : n.kind = kind
  cases kind with
  | literal =>
    dsimp only
    rw [h.leafwise.literal hn hk]
    exact (settled_literal env n).padded.bind fun v => padded_pure _
  | identifier =>
    exact (h.padded_variableValue hn).bind fun v => padded_pure _
  | lambdaExpression =>
    dsimp only
    rw [h.leafwise.lambda hn hk]
    exact (settled_lambda env n).padded.bind fun v => padded_pure _
  | binaryExpression =>
    have hleft := hchild .left (by decide)
    have hright := hchild .right (by decide)
    dsimp only
    rw [h.operatorText hn]
    generalize n.child? .left = l, m.child? .left = l' at hleft
    generalize n.child? .right = r, m.child? .right = r' at hright
    cases hleft with
    | none => exact padded_fault _
    | some hl =>
      refine (hl.valueOf shape).bind fun a => ?_
      cases hright with
      | none => exact padded_fault _
      | some hr =>
        refine (hr.valueOf shape).bind fun b => ?_
        refine (settled_operatorText env n).padded.bind fun op => ?_
        exact (settled_applyOperator op a b).padded.bind fun v => padded_pure _
  | nestedIdentifier =>
    have hparent := hchild .parent (by decide)
    have hname := hchild .name (by decide)
    dsimp only
    generalize n.child? .parent = p, m.child? .parent = p' at hparent
    generalize n.child? .name = o, m.child? .name = o' at hname
    cases hparent with
    | none => exact padded_fault _
    | some hp =>
      refine (hp.valueOf shape).bind fun v => ?_
      cases hname with
      | none => exact padded_fault _
      | some hname =>
        dsimp only
        rw [h.text hname.nested.extent]
        refine (env.settled_text _).padded.bind fun name => ?_
        exact (settled_lift _).padded.bind fun v => padded_pure _
  | arrayExpression =>
    exact (padded_values (rel_named hchildren (by simp [hk]))).bind fun vs => padded_pure _
  | ifExpression =>
    have hcondition := hchild .condition (by decide)
    have hconsequence := hchild .consequence (by decide)
    have helse := Node.rel_child? (fun hab => hab.field) hchildren .else_
    dsimp only
    generalize n.child? .condition = c, m.child? .condition = c' at hcondition
    generalize n.child? .consequence = t, m.child? .consequence = t' at hconsequence
    generalize n.child? .else_ = o, m.child? .else_ = o' at helse
    cases hcondition with
    | none => exact padded_fault _
    | some hc =>
      refine (hc.valueOf shape).bind fun v => ?_
      cases v with
      | int test =>
        dsimp only
        split
        · cases hconsequence with
          | none => exact padded_fault _
          | some ht => exact ht.block shape []
        · cases helse with
          | none => exact padded_pure _
          -- the one child that may be an if on one side and a block on the other
          | some ha => exact ha.otherwise shape
      | _ => exact padded_fault _
  | callExpression =>
    have hcallee := hchild .function (by decide)
    have harguments := rel_arguments hchildren (by simp [hk])
    dsimp only
    generalize n.child? .function = f, m.child? .function = f' at hcallee
    cases hcallee with
    | none => exact padded_fault _
    | @some callee _ hf =>
      dsimp only
      rw [hf.nested.kind]
      split
      · rw [h.text hf.nested.extent]
        refine (env.settled_text _).padded.bind fun name => padded_scopes_bind fun s t hs => ?_
        rw [target_eq hs]
        refine (settled_lift _).padded.bind fun target => ?_
        refine (padded_values harguments).bind fun arguments => ?_
        exact (padded_dispatch h hcall name arguments target).bind fun v => padded_pure _
      · refine (hf.valueOf shape).bind fun v => (settled_lift _).padded.bind fun target => ?_
        refine (padded_values harguments).bind fun arguments => ?_
        exact (padded_dispatch h hcall _ arguments target).bind fun v => padded_pure _
  | _ => exact padded_fault _

theorem padded_valueOf (hn : n.Nested m)
    (hexpr : Padded exhausting shape (expr env call n) (expr env' call' m)) :
    Padded exhausting shape (valueOf env call n) (valueOf env' call' m) := by
  rw [valueOf, valueOf]
  refine hexpr.bind fun signal => ?_
  cases signal with
  | value v => exact padded_pure v
  | returned v =>
    dsimp only
    rw [h.place hn.extent]
    exact (padded_fault _).located _

omit h in
theorem padded_block (hn : n.Nested m)
    (hchildren : List.Forall₂ (PaddedChild exhausting env env' call call' n.kind) n.children
      m.children) (shape : List Bool) (bindings : Frame φ) :
    Padded exhausting shape (block env call bindings n) (block env' call' bindings m) := by
  rw [block, block, hn.kind]
  split
  · rename_i hk
    exact (padded_statements (by simp) (rel_named hchildren (by simp [hk]))).inScope bindings
  · exact padded_fault _

theorem padded_statement (hn : n.Nested m)
    (hchildren : List.Forall₂ (PaddedChild exhausting env env' call call' n.kind) n.children
      m.children) (hshape : shape.head? ≠ some true) :
    Padded exhausting shape (statement env call n) (statement env' call' m) := by
  have hchild := rel_below hchildren
  rw [statement, statement, h.place hn.extent]
  refine Padded.located ?_ _
  rw [h.bounds]
  refine (padded_within (fun hbound => h.exhausting (hbound.elim id id)) _ _).bind fun _ => ?_
  rw [hn.kind]
  generalize hk : n.kind = kind
  cases kind with
  | expressionStatement =>
    have hnamed := rel_named hchildren (by simp [hk])
    dsimp only
    generalize n.named = ns, m.named = ms at hnamed
    cases hnamed with
    | nil => exact padded_fail _
    | cons hinner _ => exact hinner.expr shape
  | variableDeclaration =>
    exact (padded_declarators h hshape (rel_named hchildren (by simp [hk]))).bind
      fun _ => padded_pure _
  | assignment =>
    have hlhs := hchild .lhs (by decide)
    have hrhs := hchild .rhs (by decide)
    dsimp only
    generalize n.child? .lhs = l, m.child? .lhs = l' at hlhs
    generalize n.child? .rhs = r, m.child? .rhs = r' at hrhs
    cases hlhs with
    | none => exact padded_fault _
    | some hl =>
      refine padded_expectKind hl.nested fun _ => ?_
      cases hrhs with
      | none => exact padded_fault _
      | some hr =>
        dsimp only
        rw [h.text hl.nested.extent]
        refine (hr.valueOf shape).bind fun v => (env.settled_text _).padded.bind fun name => ?_
        refine padded_scopes_bind fun s t hs => ?_
        have hassign := hs.rel_assign? name v
        generalize s.assign? name v = o, t.assign? name v = o' at hassign
        cases hassign with
        | none => exact padded_fault _
        | some hassign =>
          exact (padded_modifyScopes fun _ _ _ => hassign).bind fun _ => padded_pure _
  | returnStatement =>
    have hvalue := hchild .value (by decide)
    dsimp only
    generalize n.child? .value = o, m.child? .value = o' at hvalue
    cases hvalue with
    | none => exact padded_pure _
    | some hv => exact (hv.valueOf shape).bind fun v => padded_pure _
  | _ => exact padded_fault _

-- ------------------------------------------------------------ alternatives

omit h in
theorem padded_otherwise (hc : PaddedAt exhausting env env' call call' c d)
    (shape : List Bool) :
    Padded exhausting shape (otherwise env call (some c)) (otherwise env' call' (some d)) := by
  rw [otherwise, otherwise, hc.nested.kind]
  split
  · exact hc.expr shape
  · exact hc.block shape []

/-- An else-if and the block that it stands in. The frame of the block is empty, its
statement gives failures the place that the if has given them, and what both do to the
value is nothing that the if would not do. -/
theorem padded_otherwise_inBlock (his : c.Is .ifExpression)
    (hc : PaddedAt exhausting env env' call call' c d) (statement inner : Option Field)
    (shape : List Bool) :
    Padded exhausting shape (otherwise env call (some c))
      (otherwise env' call' (some (d.inBlock statement inner))) := by
  obtain ⟨measure, hblock⟩ : ∃ measure, block env' call' [] (d.inBlock statement inner) = _ :=
    block_inBlock (hc.nested.isNamed.trans his.1) statement inner
  have halone : otherwise env call (some c) =
      located (env.place c) (within none measure >>= fun _ => expr env call c) >>=
        fun signal => pure signal.dropped := by
    show _ = located (env.place c) (expr env call c) >>= _
    rw [located_expr, (vacant_if c his.2).bind_dropped, otherwise, if_pos his.2]
  have hne : (d.inBlock statement inner).kind ≠ .ifExpression :=
    show NodeKind.statementBlock ≠ .ifExpression by decide
  rw [halone, otherwise, if_neg hne, hblock, h.place hc.nested.extent, h.bounds]
  refine Padded.inScope_empty (.bind (.located (.bind ?_ fun _ => hc.expr _) _) fun _ => ?_)
  · exact padded_within (fun hbound => h.exhausting (hbound.resolve_left (absurd rfl))) _ _
  · exact padded_pure _

/-- What is evaluated alike at children is evaluated alike at alternatives. -/
theorem padded_child {parent : NodeKind}
    (ih : ∀ d, c.Nested d → PaddedAt exhausting env env' call call' c d)
    (hc : c.NestedChild parent d) :
    PaddedChild exhausting env env' call call' parent c d where
  field := hc.field
  alike hne := ih d (hc.nested hne)
  otherwise := by
    cases hc with
    | same _ hcd => exact padded_otherwise (ih d hcd)
    | inBlock statement inner his _ _ hcd =>
      exact padded_otherwise_inBlock h his (ih _ hcd) statement inner

/-- Every way to evaluate a node comes to the same as evaluating one that is built alike,
given that calls do. -/
theorem padded (hcall : PaddedCalls exhausting call call') (n : Node) :
    ∀ m, n.Nested m → PaddedAt exhausting env env' call call' n m := by
  induction n using Node.children_induction with
  | step n ih =>
    intro m hn
    have hchildren : List.Forall₂ (PaddedChild exhausting env env' call call' n.kind)
        n.children m.children :=
      ((List.forall₂_and_left _ _).2 ⟨ih, hn.children⟩).imp fun c d hcd =>
        padded_child h hcd.1 hcd.2
    have hexpr := padded_expr h hcall hn hchildren
    exact {
      nested := hn
      expr := hexpr
      valueOf := fun shape => padded_valueOf h hn (hexpr shape)
      block := padded_block hn hchildren
      statement := fun shape hshape => padded_statement h hn hchildren hshape
      below := fun field hne =>
        rel_mono (fun _ _ hab => ⟨hab.nested, hab.valueOf⟩) (rel_below hchildren field hne) }

-- ================================================================== calls

/-- One call comes to the same if the calls that it makes do. -/
theorem padded_entered {free : Nat}
    (ih : ∀ less, free = less + 1 → PaddedCalls exhausting (enter env less) (enter env' less)) :
    PaddedCalls exhausting (enter env free) (enter env' free) := by
  intro shape name f arguments
  have hbody := h.body f
  rw [enter.eq_def, enter.eq_def]
  dsimp only
  split
  · exact padded_fault _
  · generalize env.body? f = o, env'.body? f = o' at hbody
    cases hbody with
    | none => exact padded_fault _
    | some hbody =>
      refine padded_expectKind hbody fun _ => ?_
      cases free with
      | zero =>
        dsimp only
        rw [h.config]
        exact padded_fault _
      | succ less =>
        have hblock := (padded h (ih less rfl) _ _ hbody).block shape
        dsimp only
        rw [h.bounds]
        refine (padded_withinCalls _).bind fun _ => ((hblock _).inCall name).bind fun signal => ?_
        cases signal <;> exact padded_pure _

/-- Calls come to the same, however many more may become active. -/
theorem padded_enter (free : Nat) : PaddedCalls exhausting (enter env free) (enter env' free) := by
  induction free with
  | zero => exact padded_entered h fun less hless => by omega
  | succ free ih =>
    refine padded_entered h fun less hless => ?_
    obtain rfl : free = less := by omega
    exact ih

end

end Eval

-- =============================================================== else-ifs

/-- In a tree some of whose else-ifs stand in blocks, evaluation goes as in the tree in
which none does. -/
theorem Surroundings.nesting (r : Surroundings) {root root' : Node} (h : root.Nested root')
    (source : List UInt8) :
    Eval.Nesting (r.bounds.operands ≠ none) (r.env root source) (r.env root' source) where
  host := rfl
  config := rfl
  bounds := rfl
  place hextent := by
    unfold Env.place
    rw [hextent]
    rfl
  text hextent := by
    unfold Env.text Node.bytes
    rw [hextent]
    rfl
  close hextent := by
    funext parameters
    show FunctionRef.mk _ _ parameters = FunctionRef.mk _ _ parameters
    rw [hextent]
  body f := h.rel_descendant? f.start f.stop
  exhausting := id

/-- An else-if is the same as an else block holding the if. In any tree, let a named if
that is the alternative of an if be replaced by a block over the same bytes, which holds
nothing but a statement over the same bytes, which holds nothing but the if. From every
state and however programs answer, the enclosing if then comes to what it came to before,
to no value but the undefined one, or to the same return or the same failure at the same
place; the same programs were started, and the frames and the active calls are the same
afterwards. Only where the nesting of operands is bounded may one of the two be exhausted
where the other is not. -/
theorem else_if_is_else_with_if (r : Surroundings) (root : Node) (source : List UInt8)
    (p : List Nat) (i : Nat) (enclosing alternative : Node) (statement inner : Option Field)
    (hat : root.at? p = some enclosing) (hif : enclosing.kind = .ifExpression)
    (hchild : enclosing.children[i]? = some alternative) (his : alternative.Is .ifExpression)
    (hrole : alternative.field = some .else_) (free : Nat) (s : RunState) :
    let root' := root.modifyAt (.inBlock statement inner) (p ++ [i])
    let enclosing' := enclosing.modifyAt (.inBlock statement inner) [i]
    let env := r.env root source
    let env' := r.env root' source
    let x := Eval.expr env (Eval.enter env free) enclosing s
    let y := Eval.expr env' (Eval.enter env' free) enclosing' s
    root'.at? p = some enclosing' ∧ (∀ v, x.1 = .ok (.value v) → v = .undefined) ∧
      ((y.1 = x.1 ∧ y.2.scopes = x.2.scopes ∧ y.2.calls = x.2.calls ∧
          y.2.started.map Started.launch = x.2.started.map Started.launch) ∨
        r.bounds.operands ≠ none ∧ (x.1 = .error .exhausted ∨ y.1 = .error .exhausted)) := by
  intro root' enclosing' env env' x y
  have hroot : root.Nested root' :=
    Node.nested_modifyAt statement inner hat hif hchild his hrole
  have henclosing : enclosing.Nested enclosing' :=
    Node.nested_modifyAt (p := []) statement inner rfl hif hchild his hrole
  have hnesting := r.nesting hroot source
  have hcall := Eval.padded_enter hnesting free
  refine ⟨?_, Eval.vacant_if enclosing hif s, ?_⟩
  · rw [Node.at?_modifyAt, hat]
    rfl
  · exact ((Eval.padded hnesting hcall enclosing enclosing' henclosing).expr _).same_end s

/-- An else-if that returns, on its own and in a block. -/
theorem else_if_is_else_with_if_returning :
    let r : Surroundings := { host := ⟨fun _ => .error .nullByte, fun _ _ => .error .badVariable⟩ }
    let text := "if (0) \x7b \x7d else if (1) \x7b return 2; \x7d"
    ∃ tree enclosing alternative, Tree.ofSource {} none text = .ok tree ∧
      tree.root.at? [0, 0] = some enclosing ∧ enclosing.kind = .ifExpression ∧
      enclosing.children[6]? = some alternative ∧ alternative.Is .ifExpression ∧
      alternative.field = some .else_ ∧
      let root' := tree.root.modifyAt (.inBlock none none) [0, 0, 6]
      let env := r.env tree.root tree.source
      let env' := r.env root' tree.source
      let x := Eval.expr env (Eval.enter env 1) enclosing {}
      x.1.toOption.any Signal.isReturned = true ∧
        ∃ enclosing', root'.at? [0, 0] = some enclosing' ∧
          (Eval.expr env' (Eval.enter env' 1) enclosing' {}).1 = x.1 := by
  intro r text
  have hrun : (Tree.ofSource {} none text).toOption.any (fun tree =>
      (tree.root.at? [0, 0]).any fun enclosing =>
        enclosing.kind = .ifExpression &&
        ((enclosing.children[6]?).any fun alternative =>
          alternative.isNamed && alternative.kind = .ifExpression &&
          alternative.field = some .else_) &&
        (Eval.expr (r.env tree.root tree.source) (Eval.enter (r.env tree.root tree.source) 1)
          enclosing {}).1.toOption.any Signal.isReturned) = true := by
    decide +kernel
  rcases htree : Tree.ofSource {} none text with e | tree
  · rw [htree] at hrun
    cases hrun
  · rw [htree] at hrun
    rw [show (Except.ok tree : Except SourceError Tree).toOption = some tree from rfl] at hrun
    simp only [Option.any_some, Option.any_eq_true, Bool.and_eq_true, decide_eq_true_eq] at hrun
    obtain ⟨enclosing, hat, ⟨hif, alternative, hchild, ⟨hnamed, hk⟩, hrole⟩, hreturned⟩ := hrun
    obtain ⟨hat', -, hsame⟩ := else_if_is_else_with_if r tree.root tree.source [0, 0] 6 enclosing
      alternative none none hat hif hchild ⟨hnamed, hk⟩ hrole 1 {}
    have hresult := (hsame.resolve_right fun hbounded => hbounded.1 rfl).1
    exact ⟨tree, enclosing, alternative, rfl, hat, hif, hchild, ⟨hnamed, hk⟩, hrole,
      (Option.any_eq_true _ _).2 hreturned, _, hat', hresult⟩

end SamScript
