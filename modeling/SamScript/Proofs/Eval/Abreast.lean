/-
Two environments side by side. Their trees are built alike and spell alike
where evaluation reads them (`Abreast`); they may differ in where the nodes
stand and in how many calls may become active. Evaluation of such trees runs
parallel: down the tree by induction on the nodes, and from one call to the
next by induction on the calls that are left to the first of the two.
-/
import Mathlib.Data.List.Forall2
import SamScript.Proofs.Eval.Parallel
import SamScript.Proofs.Eval.Still
import SamScript.Proofs.Tree.Preorder

namespace SamScript

variable {φ α : Type}

-- =============================================================== two trees

open Run

/-- In two lists that are related place by place, the first elements of a kind
are related. -/
theorem rel_find? {γ δ : Type} {R : γ → δ → Prop} {p : γ → Bool} {q : δ → Bool}
    (hpq : ∀ a b, R a b → p a = q b) {as : List γ} {bs : List δ} (h : List.Forall₂ R as bs) :
    Option.Rel R (as.find? p) (bs.find? q) := by
  induction h with
  | nil => exact .none
  | cons h _ ih =>
    rw [List.find?_cons, List.find?_cons, hpq _ _ h]
    split
    · exact .some h
    · exact ih

theorem rel_self {γ : Type} {R : γ → γ → Prop} (h : ∀ a, R a a) (o : Option γ) :
    Option.Rel R o o := by
  cases o with
  | none => exact .none
  | some a => exact .some (h a)

theorem rel_mono {γ δ : Type} {R S : γ → δ → Prop} (h : ∀ a b, R a b → S a b) {a : Option γ}
    {b : Option δ} (hab : Option.Rel R a b) : Option.Rel S a b := by
  cases hab with
  | none => exact .none
  | some hab => exact .some (h _ _ hab)

namespace Node

variable {R : Node → Node → Prop} {n m : Node}

theorem rel_child? (hR : ∀ {a b}, R a b → b.field = a.field)
    (h : List.Forall₂ R n.children m.children) (field : Field) :
    Option.Rel R (n.child? field) (m.child? field) := by
  refine rel_find? (fun a b hab => ?_) h
  rw [hR hab]

theorem rel_inRole (hR : ∀ {a b}, R a b → b.field = a.field)
    (h : List.Forall₂ R n.children m.children) (field : Field) :
    List.Forall₂ R (n.inRole field) (m.inRole field) := by
  refine List.rel_filter (fun a b hab => ?_) h
  show decide (a.field = some field) = true ↔ decide (b.field = some field) = true
  rw [hR hab]

theorem rel_named (hR : ∀ {a b}, R a b → b.isNamed = a.isNamed)
    (h : List.Forall₂ R n.children m.children) : List.Forall₂ R n.named m.named := by
  refine List.rel_filter (fun a b hab => ?_) h
  show a.isNamed = true ↔ b.isNamed = true
  rw [hR hab]

end Node

namespace Eval

/-- What two environments have to do with each other for the leaves of evaluation to come
to the same at nodes that are `alike`. -/
structure Leafwise (alike : Node → Node → Prop) (env env' : Env φ) : Prop where
  kind : ∀ {n m}, alike n m → m.kind = n.kind
  isNamed : ∀ {n m}, alike n m → m.isNamed = n.isNamed
  parts : ∀ {n m}, alike n m → n.kind ∈ [.literal, .string, .lambdaExpression] →
    List.Forall₂ (fun a b => alike a b ∧ b.field = a.field) n.children m.children
  text : ∀ {n m}, alike n m →
    n.kind ∈ [.identifier, .number, .stringFragment, .escapeSequence] → env'.text m = env.text n
  close : ∀ {n m}, alike n m → n.kind = .lambdaExpression →
    Option.Rel (fun a b => alike a b ∧ env'.close b = env.close a) (n.child? .body) (m.child? .body)

/-- What two environments have to do with each other for nodes to be evaluated
side by side: nodes that are `alike` are built alike and spell alike where
evaluation reads them, and close to the same functions. -/
structure Alongside (near : Place → Place → Prop) (alike : Node → Node → Prop)
    (env env' : Env φ) : Prop where
  near_self : ∀ p, near p p
  bounds : env'.bounds = env.bounds
  entry : ∀ path name, Foreign.entry env'.bounds env'.host env'.config path name =
    Foreign.entry env.bounds env.host env.config path name
  launch : ∀ [Callable φ] (l : Foreign.Launch φ), Run.launch env' l = Run.launch env l
  body : ∀ f, Option.Rel alike (env.body? f) (env'.body? f)
  kind : ∀ {n m}, alike n m → m.kind = n.kind
  isNamed : ∀ {n m}, alike n m → m.isNamed = n.isNamed
  field : ∀ {n m}, alike n m → m.field = n.field
  children : ∀ {n m}, alike n m → List.Forall₂ alike n.children m.children
  place : ∀ {n m}, alike n m → near (env.place n) (env'.place m)
  text : ∀ {n m}, alike n m →
    n.kind ∈ [.identifier, .number, .stringFragment, .escapeSequence] → env'.text m = env.text n
  operator : ∀ {n m}, alike n m → n.kind = .binaryExpression →
    operatorText env' m = operatorText env n
  access : ∀ {n m}, alike n m → n.kind = .nestedIdentifier →
    Option.Rel (fun a b => env'.text b = env.text a) (n.child? .name) (m.child? .name)
  declared : ∀ {n m}, alike n m → n.kind = .variableDeclarator →
    Option.Rel (fun a b => env'.text b = env.text a) (n.child? .variable_) (m.child? .variable_)
  close : ∀ {n m}, alike n m → n.kind = .lambdaExpression →
    Option.Rel (fun a b => alike a b ∧ env'.close b = env.close a) (n.child? .body) (m.child? .body)

/-- The same where the roots of the two trees are alike too. -/
structure Abreast (near : Place → Place → Prop) (alike : Node → Node → Prop)
    (env env' : Env φ) : Prop extends Alongside near alike env env' where
  root : alike env.root env'.root

variable {halts : EvalFault → Prop} {near : Place → Place → Prop} {alike : Node → Node → Prop}
  {env env' : Env φ} {n m : Node}

-- ================================================================ leaves

namespace Leafwise

variable (h : Leafwise alike env env')

include h

theorem named (hn : alike n m) (hk : n.kind ∈ [.literal, .string, .lambdaExpression]) :
    List.Forall₂ alike n.named m.named :=
  (Node.rel_named (fun hab => h.isNamed hab.1) (h.parts hn hk)).imp fun _ _ hab => hab.1

theorem inRole (hn : alike n m) (hk : n.kind ∈ [.literal, .string, .lambdaExpression])
    (field : Field) : List.Forall₂ alike (n.inRole field) (m.inRole field) :=
  (Node.rel_inRole (fun hab => hab.2) (h.parts hn hk) field).imp fun _ _ hab => hab.1

theorem piece (hn : alike n m) : Eval.piece env' m = Eval.piece env n := by
  unfold Eval.piece
  rw [h.kind hn]
  generalize hk : n.kind = kind
  cases kind with
  | stringFragment | escapeSequence => rw [h.text hn (by simp [hk])]
  | _ => rfl

theorem pieces {ns ms : List Node} (hns : List.Forall₂ alike ns ms) :
    Eval.pieces env' ms = Eval.pieces env ns := by
  induction hns with
  | nil => rfl
  | cons hn _ ih => rw [Eval.pieces, Eval.pieces, h.piece hn, ih]

theorem stringText (hn : alike n m) : Eval.stringText env' m = Eval.stringText env n := by
  unfold Eval.stringText
  by_cases hk : n.kind = .string
  · rw [expectKind_of_eq hk, expectKind_of_eq ((h.kind hn).trans hk)]
    show (Eval.pieces env' m.named >>= _) = (Eval.pieces env n.named >>= _)
    rw [h.pieces (h.named hn (by simp [hk]))]
  · rw [expectKind_of_ne hk, expectKind_of_ne (h.kind hn ▸ hk), h.kind hn]
    rfl

theorem literal (hn : alike n m) (hk : n.kind = .literal) :
    Eval.literal env' m = Eval.literal env n := by
  have hnamed := h.named hn (by simp [hk])
  unfold Eval.literal
  generalize n.named = ns, m.named = ms at hnamed
  cases hnamed with
  | nil => rfl
  | @cons inner _ _ _ hn _ =>
    dsimp only
    rw [h.kind hn]
    generalize hk : inner.kind = kind
    cases kind with
    | number => rw [h.text hn (by simp [hk])]
    | string => rw [h.stringText hn]
    | _ => rfl

theorem parameterNames {ns ms : List Node} (hns : List.Forall₂ alike ns ms) :
    Eval.parameterNames env' ms = Eval.parameterNames env ns := by
  induction hns with
  | nil => rfl
  | @cons a b _ _ hn _ ih =>
    rw [Eval.parameterNames, Eval.parameterNames]
    by_cases hk : a.kind = .identifier
    · rw [expectKind_of_eq hk, expectKind_of_eq ((h.kind hn).trans hk)]
      show (env'.text b >>= _) = (env.text a >>= _)
      rw [h.text hn (by simp [hk]), ih]
    · rw [expectKind_of_ne hk, expectKind_of_ne (h.kind hn ▸ hk), h.kind hn]
      rfl

theorem lambda (hn : alike n m) (hk : n.kind = .lambdaExpression) :
    Eval.lambda env' m = Eval.lambda env n := by
  have hbody := h.close hn hk
  unfold Eval.lambda
  rw [h.kind hn, h.parameterNames (h.inRole hn (by simp [hk]) .parameters)]
  generalize n.child? .body = o, m.child? .body = o' at hbody
  cases hbody with
  | none => rfl
  | @some a b hab =>
    dsimp only
    by_cases hk : a.kind = .statementBlock
    · rw [expectKind_of_eq hk, expectKind_of_eq ((h.kind hab.1).trans hk)]
      show (Eval.parameterNames env _ >>= _) = (Eval.parameterNames env _ >>= _)
      rw [hab.2]
    · rw [expectKind_of_ne hk, expectKind_of_ne (h.kind hab.1 ▸ hk), h.kind hab.1]
      rfl

end Leafwise

namespace Alongside

variable (h : Alongside near alike env env')

include h

-- ------------------------------------------------------------- structure

theorem named (hn : alike n m) : List.Forall₂ alike n.named m.named :=
  Node.rel_named h.isNamed (h.children hn)

theorem inRole (hn : alike n m) (field : Field) :
    List.Forall₂ alike (n.inRole field) (m.inRole field) :=
  Node.rel_inRole h.field (h.children hn) field

omit h in
theorem operandDepths {ns ms : List Node} (hns : List.Forall₂ alike ns ms)
    (ih : ∀ n ∈ ns, ∀ m, alike n m → m.operandDepth = n.operandDepth) :
    Node.operandDepths ms = Node.operandDepths ns := by
  induction hns with
  | nil => rfl
  | cons hn _ ihs =>
    rw [List.forall_mem_cons] at ih
    rw [Node.operandDepths, Node.operandDepths, ih.1 _ hn, ihs ih.2]

theorem operandDepth (n : Node) : ∀ m, alike n m → m.operandDepth = n.operandDepth := by
  induction n using Node.children_induction with
  | step n ih =>
    intro m hn
    have hchildren := operandDepths (h.children hn) ih
    have hkind := h.kind hn
    cases n
    cases m
    rw [Node.operandDepth, Node.operandDepth]
    dsimp only [Node.kind, Node.children] at hkind hchildren
    rw [hkind, hchildren]

-- ----------------------------------------------------------------- leaves

theorem leafwise : Leafwise alike env env' where
  kind := h.kind
  isNamed := h.isNamed
  parts hn _ := (h.children hn).imp fun _ _ hab => ⟨hab, h.field hab⟩
  text := h.text
  close := h.close

theorem same (x : Run φ α) : Parallel halts near x x :=
  parallel_refl h.near_self x

theorem parallel_expectKind {f g : Node → Run φ α} {kind : NodeKind} (hn : alike n m)
    (hf : n.kind = kind → Parallel halts near (f n) (g m)) :
    Parallel halts near (expectKind kind (some n) >>= f) (expectKind kind (some m) >>= g) := by
  by_cases hk : n.kind = kind
  · rw [expectKind_of_eq hk, expectKind_of_eq ((h.kind hn).trans hk)]
    exact hf hk
  · rw [expectKind_of_ne hk, expectKind_of_ne (h.kind hn ▸ hk), h.kind hn]
    exact parallel_fault _

theorem variableValue (hn : alike n m) (hk : n.kind = .identifier) :
    Eval.variableValue env' m = Eval.variableValue env n := by
  unfold Eval.variableValue
  rw [h.text hn (by simp [hk])]

end Alongside

-- ================================================================== nodes

variable [Callable φ] {call call' : Caller φ}

/-- Whether calls run parallel. -/
def ParallelCalls (halts : EvalFault → Prop) (near : Place → Place → Prop)
    (call call' : Caller φ) : Prop :=
  ∀ name f arguments, Parallel halts near (call name f arguments) (call' name f arguments)

theorem parallel_dispatch (h : Alongside near alike env env')
    (hcall : ParallelCalls halts near call call') (name : String) (arguments : List (Value φ))
    (t : Target φ) :
    Parallel halts near (dispatch env call name arguments t)
      (dispatch env' call' name arguments t) := by
  cases t with
  | function f => exact hcall name f arguments
  | foreign template =>
    show Parallel halts near (launch env (.template template arguments)) (launch env' _)
    rw [h.launch]
    exact h.same _
  | program =>
    show Parallel halts near (launch env (.program name arguments)) (launch env' _)
    rw [h.launch]
    exact h.same _

variable [DecidableEq φ]

/-- Whether every way to evaluate a node runs parallel to evaluating another
one. -/
structure ParallelAt (halts : EvalFault → Prop) (near : Place → Place → Prop)
    (alike : Node → Node → Prop) (env env' : Env φ) (call call' : Caller φ) (n m : Node) :
    Prop where
  alike : alike n m
  expr : Parallel halts near (expr env call n) (expr env' call' m)
  valueOf : Parallel halts near (valueOf env call n) (valueOf env' call' m)
  block : ∀ bindings, Parallel halts near (block env call bindings n) (block env' call' bindings m)
  statement : Parallel halts near (statement env call n) (statement env' call' m)
  /-- For a declarator: its value. -/
  below : ∀ field, Option.Rel
    (fun a b => Parallel halts near (Eval.valueOf env call a) (Eval.valueOf env' call' b))
    (n.child? field) (m.child? field)

section

variable (h : Alongside near alike env env')

include h

-- ------------------------------------------------------------------ lists

omit h in
theorem parallel_values {ns ms : List Node}
    (hns : List.Forall₂ (ParallelAt halts near alike env env' call call') ns ms) :
    Parallel halts near (values env call ns) (values env' call' ms) := by
  induction hns with
  | nil =>
    rw [values, values]
    exact parallel_pure []
  | cons hn _ ih =>
    rw [values, values]
    exact hn.valueOf.bind fun v => ih.bind fun vs => parallel_pure (v :: vs)

omit h in
theorem parallel_statements {ns ms : List Node}
    (hns : List.Forall₂ (ParallelAt halts near alike env env' call call') ns ms) :
    Parallel halts near (statements env call ns) (statements env' call' ms) := by
  induction hns with
  | nil =>
    rw [statements, statements]
    exact parallel_pure _
  | cons hn _ ih =>
    rw [statements, statements]
    refine hn.statement.bind fun signal => ?_
    cases signal with
    | returned v => exact parallel_pure _
    | value v => exact ih

theorem parallel_declarators {ns ms : List Node}
    (hns : List.Forall₂ (ParallelAt halts near alike env env' call call') ns ms) :
    Parallel halts near (declarators env call ns) (declarators env' call' ms) := by
  induction hns with
  | nil =>
    rw [declarators, declarators]
    exact parallel_pure ()
  | @cons n m _ _ hn _ ih =>
    have hvalue := hn.below .value
    rw [declarators, declarators]
    refine h.parallel_expectKind hn.alike fun hk => ?_
    have hname := h.declared hn.alike hk
    rw [h.kind hn.alike]
    generalize n.child? .variable_ = o, m.child? .variable_ = o' at hname
    cases hname with
    | none => exact parallel_fault _
    | some hname =>
      dsimp only
      rw [hname]
      refine (h.same _).bind fun name => (h.same _).bind fun _ => ?_
      generalize n.child? .value = o, m.child? .value = o' at hvalue
      cases hvalue with
      | none => exact ih
      | some hv => exact hv.bind fun v => (h.same _).bind fun _ => ih

-- ------------------------------------------------------------------ nodes

theorem parallel_expr (hcall : ParallelCalls halts near call call') (hn : alike n m)
    (hchildren : List.Forall₂ (ParallelAt halts near alike env env' call call')
      n.children m.children) :
    Parallel halts near (expr env call n) (expr env' call' m) := by
  have hchild := Node.rel_child? (fun hab => h.field hab.alike) hchildren
  have harguments :=
    parallel_values (Node.rel_inRole (fun hab => h.field hab.alike) hchildren .arguments)
  rw [expr, expr]
  refine Parallel.located ?_ (h.place hn)
  rw [h.kind hn]
  generalize hk : n.kind = kind
  cases kind with
  | literal =>
    dsimp only
    rw [h.leafwise.literal hn hk]
    exact h.same _
  | identifier =>
    dsimp only
    rw [h.variableValue hn hk]
    exact h.same _
  | lambdaExpression =>
    dsimp only
    rw [h.leafwise.lambda hn hk]
    exact h.same _
  | binaryExpression =>
    have hleft := hchild .left
    have hright := hchild .right
    dsimp only
    rw [h.operator hn hk]
    generalize n.child? .left = l, m.child? .left = l' at hleft
    generalize n.child? .right = r, m.child? .right = r' at hright
    cases hleft with
    | none => exact parallel_fault _
    | some hl =>
      refine hl.valueOf.bind fun a => ?_
      cases hright with
      | none => exact parallel_fault _
      | some hr => exact hr.valueOf.bind fun b => h.same _
  | nestedIdentifier =>
    have hparent := hchild .parent
    have hname := h.access hn hk
    dsimp only
    generalize n.child? .parent = p, m.child? .parent = p' at hparent
    generalize n.child? .name = o, m.child? .name = o' at hname
    cases hparent with
    | none => exact parallel_fault _
    | some hp =>
      refine hp.valueOf.bind fun v => ?_
      cases hname with
      | none => exact parallel_fault _
      | some hname =>
        dsimp only
        rw [hname]
        exact h.same _
  | arrayExpression =>
    have hitems := Node.rel_named (fun hab => h.isNamed hab.alike) hchildren
    exact (parallel_values hitems).bind fun vs => parallel_pure _
  | ifExpression =>
    have hcondition := hchild .condition
    have hconsequence := hchild .consequence
    have helse := hchild .else_
    dsimp only
    generalize n.child? .condition = c, m.child? .condition = c' at hcondition
    generalize n.child? .consequence = t, m.child? .consequence = t' at hconsequence
    generalize n.child? .else_ = o, m.child? .else_ = o' at helse
    cases hcondition with
    | none => exact parallel_fault _
    | some hc =>
      refine hc.valueOf.bind fun v => ?_
      cases v with
      | int test =>
        dsimp only
        split
        · cases hconsequence with
          | none => exact parallel_fault _
          | some ht => exact ht.block []
        · cases helse with
          | none => exact parallel_pure _
          | some ha =>
            dsimp only
            rw [h.kind ha.alike]
            split
            · exact ha.expr
            · exact ha.block []
      | _ => exact parallel_fault _
  | callExpression =>
    have hcallee := hchild .function
    dsimp only
    generalize n.child? .function = f, m.child? .function = f' at hcallee
    cases hcallee with
    | none => exact parallel_fault _
    | @some callee _ hf =>
      dsimp only
      rw [h.kind hf.alike]
      split
      · rename_i hname
        rw [h.text hf.alike (by simp [hname])]
        refine (h.same _).bind fun name => (h.same _).bind fun scopes => ?_
        refine (h.same _).bind fun t => harguments.bind fun arguments => ?_
        exact (parallel_dispatch h hcall name arguments t).bind fun v => parallel_pure _
      · refine hf.valueOf.bind fun v => (h.same _).bind fun t => harguments.bind fun arguments => ?_
        exact (parallel_dispatch h hcall _ arguments t).bind fun v => parallel_pure _
  | _ => exact parallel_fault _

theorem parallel_valueOf (hn : alike n m)
    (hexpr : Parallel halts near (expr env call n) (expr env' call' m)) :
    Parallel halts near (valueOf env call n) (valueOf env' call' m) := by
  rw [valueOf, valueOf]
  refine hexpr.bind fun signal => ?_
  cases signal with
  | value v => exact parallel_pure v
  | returned v => exact (parallel_fault _).located (h.place hn)

theorem parallel_block (hn : alike n m)
    (hchildren : List.Forall₂ (ParallelAt halts near alike env env' call call')
      n.children m.children) (bindings : Frame φ) :
    Parallel halts near (block env call bindings n) (block env' call' bindings m) := by
  have hnamed := Node.rel_named (fun hab => h.isNamed hab.alike) hchildren
  rw [block, block, h.kind hn]
  split
  · exact (parallel_statements hnamed).inScope bindings
  · exact parallel_fault _

theorem parallel_statement (hn : alike n m)
    (hchildren : List.Forall₂ (ParallelAt halts near alike env env' call call')
      n.children m.children) :
    Parallel halts near (statement env call n) (statement env' call' m) := by
  have hchild := Node.rel_child? (fun hab => h.field hab.alike) hchildren
  have hnamed := Node.rel_named (fun hab => h.isNamed hab.alike) hchildren
  rw [statement, statement]
  refine Parallel.located ?_ (h.place hn)
  rw [h.bounds, h.operandDepth n m hn, h.kind hn]
  refine (h.same _).bind fun _ => ?_
  generalize n.kind = kind
  cases kind with
  | expressionStatement =>
    dsimp only
    generalize n.named = ns, m.named = ms at hnamed
    cases hnamed with
    | nil => exact h.same _
    | cons hinner _ => exact hinner.expr
  | variableDeclaration => exact (parallel_declarators h hnamed).bind fun _ => parallel_pure _
  | assignment =>
    have hlhs := hchild .lhs
    have hrhs := hchild .rhs
    dsimp only
    generalize n.child? .lhs = l, m.child? .lhs = l' at hlhs
    generalize n.child? .rhs = r, m.child? .rhs = r' at hrhs
    cases hlhs with
    | none => exact parallel_fault _
    | some hl =>
      refine h.parallel_expectKind hl.alike fun hname => ?_
      cases hrhs with
      | none => exact parallel_fault _
      | some hr =>
        dsimp only
        rw [h.text hl.alike (by simp [hname])]
        exact hr.valueOf.bind fun v => h.same _
  | returnStatement =>
    have hvalue := hchild .value
    dsimp only
    generalize n.child? .value = o, m.child? .value = o' at hvalue
    cases hvalue with
    | none => exact parallel_pure _
    | some hv => exact hv.valueOf.bind fun v => parallel_pure _
  | _ => exact parallel_fault _

/-- Every way to evaluate a node runs parallel to evaluating one that is
alike, given that calls do. -/
theorem parallel (hcall : ParallelCalls halts near call call') (n : Node) :
    ∀ m, alike n m → ParallelAt halts near alike env env' call call' n m := by
  induction n using Node.children_induction with
  | step n ih =>
    intro m hn
    have hchildren : List.Forall₂ (ParallelAt halts near alike env env' call call')
        n.children m.children :=
      ((List.forall₂_and_left _ _).2 ⟨ih, h.children hn⟩).imp fun a b hab => hab.1 b hab.2
    have hexpr := parallel_expr h hcall hn hchildren
    exact {
      alike := hn
      expr := hexpr
      valueOf := parallel_valueOf h hn hexpr
      block := parallel_block h hn hchildren
      statement := parallel_statement h hn hchildren
      below := fun field =>
        rel_mono (fun _ _ hab => hab.valueOf)
          (Node.rel_child? (fun hab => h.field hab.alike) hchildren field) }

-- ================================================================== calls

/-- Calls run parallel, the second one with some more to spare, if it has none
more or running out leaves the second one free. -/
theorem parallel_enter {more : Nat}
    (hmore : more = 0 ∧ env'.config.maxCallDepth = env.config.maxCallDepth ∨
      halts (.callDepth env.config.maxCallDepth)) (free : Nat) :
    ParallelCalls halts near (enter env free) (enter env' (free + more)) := by
  induction free with
  | zero =>
    intro name f arguments
    have hbody := h.body f
    rw [enter, enter]
    split
    · exact parallel_fault _
    · generalize env.body? f = o, env'.body? f = o' at hbody
      cases hbody with
      | none => exact parallel_fault _
      | some hbody =>
        refine h.parallel_expectKind hbody fun _ => ?_
        rcases hmore with ⟨rfl, hlimit⟩ | hlimit
        · dsimp only
          rw [hlimit]
          exact parallel_fault _
        · exact parallel_halts hlimit
  | succ free ih =>
    intro name f arguments
    have hbody := h.body f
    rw [show free + 1 + more = free + more + 1 by omega, enter, enter]
    split
    · exact parallel_fault _
    · generalize env.body? f = o, env'.body? f = o' at hbody
      cases hbody with
      | none => exact parallel_fault _
      | some hbody =>
        refine h.parallel_expectKind hbody fun _ => ?_
        rw [h.bounds]
        refine (h.same _).bind fun _ => ?_
        refine Parallel.bind (((parallel h ih _ _ hbody).block _).inCall name) fun signal => ?_
        cases signal <;> exact parallel_pure _

-- =============================================================== programs

omit [Callable φ] [DecidableEq φ] in
theorem parallel_interfaces {ns ms : List Node} (hns : List.Forall₂ alike ns ms) :
    Parallel halts near (interfaces env ns) (interfaces env' ms) := by
  induction hns with
  | nil => exact parallel_pure ()
  | @cons n m _ _ hn _ ih =>
    have hpath := Node.rel_child? h.field (h.children hn) .path
    have hname := Node.rel_child? h.field (h.children hn) .module_
    rw [interfaces, interfaces]
    refine Parallel.bind ?_ fun _ => ih
    refine Parallel.located ?_ (h.place hn)
    refine h.parallel_expectKind hn fun _ => ?_
    rw [h.kind hn]
    generalize n.child? .path = o, m.child? .path = o' at hpath
    generalize n.child? .module_ = l, m.child? .module_ = l' at hname
    cases hpath with
    | none => exact parallel_fault _
    | some hpath =>
      dsimp only
      rw [h.leafwise.stringText hpath]
      refine (h.same _).bind fun path => ?_
      cases hname with
      | none => exact parallel_fault _
      | some hname =>
        refine h.parallel_expectKind hname fun hk => ?_
        rw [h.text hname (by simp [hk])]
        unfold Foreign.register
        simp only [h.entry]
        exact h.same _

theorem parallel_topLevel (hcall : ParallelCalls halts near call call') {ns ms : List Node}
    (hns : List.Forall₂ alike ns ms) :
    Parallel halts near (topLevel env call ns) (topLevel env' call' ms) := by
  induction hns with
  | nil => exact parallel_pure ()
  | cons hn _ ih =>
    rw [topLevel, topLevel]
    refine ((parallel h hcall _ _ hn).statement.blamed (h.place hn)).bind fun signal => ?_
    cases signal with
    | returned v => exact (parallel_fault _).located (h.place hn)
    | value v => exact ih

end

/-- Programs run parallel, the second one with the higher limit on calls, if
the limits are the same or running out leaves the second one free. -/
theorem parallel_program (h : Abreast near alike env env')
    (hle : env.config.maxCallDepth ≤ env'.config.maxCallDepth)
    (hmore : env'.config.maxCallDepth = env.config.maxCallDepth ∨
      halts (.callDepth env.config.maxCallDepth)) :
    Parallel halts near (program env) (program env') := by
  obtain ⟨more, hlimit⟩ := Nat.exists_eq_add_of_le hle
  have hcall : ParallelCalls halts near (enter env env.config.maxCallDepth)
      (enter env' env'.config.maxCallDepth) := by
    rw [hlimit]
    refine parallel_enter h.toAlongside (hmore.imp_left fun heq => ⟨?_, heq⟩) _
    omega
  unfold program
  refine h.parallel_expectKind h.root fun _ => ?_
  have hnamed := h.named h.root
  dsimp only
  generalize env.root.named = ns, env'.root.named = ms at hnamed
  cases hnamed with
  | nil => exact parallel_pure ()
  | cons hfirst hrest =>
    dsimp only
    rw [h.kind hfirst]
    split
    · exact (parallel_interfaces h.toAlongside (h.named hfirst)).bind fun _ =>
        parallel_topLevel h.toAlongside hcall hrest
    · exact parallel_topLevel h.toAlongside hcall (.cons hfirst hrest)

end Eval

end SamScript
