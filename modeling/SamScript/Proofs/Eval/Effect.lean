/-
What evaluation may do to the state of a run, however it ends.

An effect is a pair of relations between the state before and the state
after: `outer` for what an expression, a block or a call may do, `inner` for
what the statements of a block may do while its frame is the current one. An
effect says what each primitive step may do; `Effect.keeps` carries
that down a tree, and `Effect.moves_enter` through calls of any depth. The
one link between the two relations is the end of a scope: whatever `inner`
allows inside a frame that was put on, `outer` has to allow once the frame
is off again.
-/
import SamScript.Proofs.Eval.Still
import SamScript.Proofs.Scope.Frames
import SamScript.Proofs.Tree.Preorder

namespace SamScript

variable {φ α β : Type}

-- ============================================================ movements

namespace Run

/-- Whatever a step does to the state, a relation allows it. -/
def Moves (R : RunState φ → RunState φ → Prop) (x : Run φ α) : Prop :=
  ∀ s, R s (x s).2

variable {R : RunState φ → RunState φ → Prop}

theorem Still.moves {x : Run φ α} (hx : Still x) (refl : ∀ s, R s s) : Moves R x := by
  intro s
  rw [hx s]
  exact refl s

theorem Moves.mono {Q : RunState φ → RunState φ → Prop} {x : Run φ α} (hx : Moves R x)
    (h : ∀ {s t}, R s t → Q s t) : Moves Q x :=
  fun s => h (hx s)

theorem Moves.bind {x : Run φ α} {f : α → Run φ β} (hx : Moves R x) (hf : ∀ a, Moves R (f a))
    (trans : ∀ {s t u}, R s t → R t u → R s u) : Moves R (x >>= f) := by
  intro s
  rw [bind_apply]
  have h := hx s
  rcases hr : x s with ⟨e | a, t⟩
  · rw [hr] at h
    exact h
  · rw [hr] at h
    exact trans h (hf a t)

theorem Moves.located {x : Run φ α} (hx : Moves R x) (place : Place) :
    Moves R (located place x) := by
  intro s
  have h := hx s
  unfold Run.located
  rcases hr : x s with ⟨e | a, t⟩
  · rw [hr] at h
    exact h
  · rw [hr] at h
    exact h

theorem Moves.blamed {x : Run φ α} (hx : Moves R x) (place : Place) :
    Moves R (Eval.blamed place x) := by
  intro s
  have h := hx s
  unfold Eval.blamed
  rcases hr : x s with ⟨e | a, t⟩
  · rw [hr] at h
    cases e <;> exact h
  · rw [hr] at h
    exact h

end Run

open Run

-- ============================================================== effects

/-- What evaluation may do to the state. -/
structure Effect (φ : Type) where
  /-- What an expression, a block or a call may do. -/
  outer : RunState φ → RunState φ → Prop
  /-- What statements may do in the frame that is current. -/
  inner : RunState φ → RunState φ → Prop
  refl : ∀ s, outer s s
  trans : ∀ {s t u}, outer s t → outer t u → outer s u
  inner_trans : ∀ {s t u}, inner s t → inner t u → inner s u
  inner_of_outer : ∀ {s t}, outer s t → inner s t
  launched : ∀ s started, outer s { s with started }
  declared : ∀ s name value, inner s { s with scopes := s.scopes.declare name value }
  unscoped : ∀ {s t} frame, inner { s with scopes := s.scopes.push frame } t →
    outer s { t with scopes := t.scopes.cutTo s.scopes.height }
  uncalled : ∀ {s t} name, outer { s with calls := name :: s.calls } t →
    outer s { t with calls := t.calls.tail }

namespace Effect

variable (E : Effect φ)

/-- Whether the effect allows assignments. -/
def Assigns : Prop :=
  ∀ s name value scopes, s.scopes.assign? name value = some scopes → E.outer s { s with scopes }

variable {E}

-- ========================================================= single steps

theorem moves_still {x : Run φ α} (hx : Still x) : Moves E.outer x :=
  hx.moves E.refl

theorem moves_bind {x : Run φ α} {f : α → Run φ β} (hx : Moves E.outer x)
    (hf : ∀ a, Moves E.outer (f a)) : Moves E.outer (x >>= f) :=
  hx.bind hf E.trans

/-- A step that only looks, and then more. -/
theorem moves_look {x : Run φ α} {f : α → Run φ β} (hx : Still x)
    (hf : ∀ a, Moves E.outer (f a)) : Moves E.outer (x >>= f) :=
  moves_bind (moves_still hx) hf

theorem moves_expectKind {kind : NodeKind} {n : Option Node} {f : Node → Run φ α}
    (h : ∀ m, n = some m → Moves E.outer (f m)) : Moves E.outer (expectKind kind n >>= f) := by
  cases n with
  | none => exact moves_still (still_fault _)
  | some m =>
    by_cases hk : m.kind = kind
    · rw [expectKind_of_eq hk]
      exact h m rfl
    · rw [expectKind_of_ne hk]
      exact moves_still (still_misshapen _ _)

theorem moves_inner {x : Run φ α} (hx : Moves E.outer x) : Moves E.inner x :=
  hx.mono E.inner_of_outer

theorem moves_inner_bind {x : Run φ α} {f : α → Run φ β} (hx : Moves E.inner x)
    (hf : ∀ a, Moves E.inner (f a)) : Moves E.inner (x >>= f) :=
  hx.bind hf E.inner_trans

theorem moves_declare (name : String) (value : Value φ) :
    Moves E.inner (modifyScopes fun s => s.declare name value) :=
  fun s => E.declared s name value

theorem moves_launch [Callable φ] (env : Env φ) (l : Foreign.Launch φ) :
    Moves E.outer (launch env l) := by
  intro s
  exact E.launched s _

theorem moves_inScope {x : Run φ α} (frame : Frame φ) (hx : Moves E.inner x) :
    Moves E.outer (inScope frame x) :=
  fun _ => E.unscoped frame (hx _)

theorem moves_inCall {x : Run φ α} (name : String) (hx : Moves E.outer x) :
    Moves E.outer (inCall name x) :=
  fun _ => E.uncalled name (hx _)

-- ======================================================= down the tree

section

variable [Callable φ] {env : Env φ} {call : Eval.Caller φ}

open Eval

theorem moves_dispatch (hcall : ∀ name f arguments, Moves E.outer (call name f arguments))
    (name : String) (arguments : List (Value φ)) (t : Target φ) :
    Moves E.outer (dispatch env call name arguments t) := by
  cases t with
  | function f => exact hcall _ _ _
  | foreign template => exact moves_launch _ _
  | program => exact moves_launch _ _

variable [DecidableEq φ]

/-- What each way to evaluate a node may do. -/
structure Keeps (E : Effect φ) (env : Env φ) (call : Caller φ) (n : Node) : Prop where
  expr : Moves E.outer (expr env call n)
  valueOf : Moves E.outer (valueOf env call n)
  block : ∀ bindings, Moves E.outer (block env call bindings n)
  statement : Moves E.inner (statement env call n)
  /-- A statement that declares nothing does no more than an expression. -/
  plain : n.kind ≠ .variableDeclaration → Moves E.outer (Eval.statement env call n)
  /-- For a declarator: its value. -/
  below : ∀ c ∈ n.children, Moves E.outer (Eval.valueOf env call c)

-- ------------------------------------------------------------------ lists

theorem moves_values {ns : List Node} (h : ∀ n ∈ ns, Keeps E env call n) :
    Moves E.outer (values env call ns) := by
  induction ns with
  | nil =>
    rw [values]
    exact moves_still (still_pure _)
  | cons n rest ih =>
    rw [List.forall_mem_cons] at h
    rw [values]
    exact moves_bind h.1.valueOf fun _ => moves_bind (ih h.2) fun _ => moves_still (still_pure _)

theorem moves_statements {ns : List Node} (h : ∀ n ∈ ns, Keeps E env call n) :
    Moves E.inner (statements env call ns) := by
  induction ns with
  | nil =>
    rw [statements]
    exact moves_inner (moves_still (still_pure _))
  | cons n rest ih =>
    rw [List.forall_mem_cons] at h
    rw [statements]
    refine moves_inner_bind h.1.statement fun signal => ?_
    cases signal with
    | returned v => exact moves_inner (moves_still (still_pure _))
    | value v => exact ih h.2

theorem moves_declarators {ns : List Node} (h : ∀ n ∈ ns, Keeps E env call n) :
    Moves E.inner (declarators env call ns) := by
  induction ns with
  | nil =>
    rw [declarators]
    exact moves_inner (moves_still (still_pure _))
  | cons n rest ih =>
    rw [List.forall_mem_cons] at h
    rw [declarators]
    refine moves_inner_bind (moves_inner (moves_still (still_expectKind _ _))) fun _ => ?_
    split
    · exact moves_inner (moves_still (still_misshapen _ _))
    · refine moves_inner_bind (moves_inner (moves_still (env.still_text _))) fun name => ?_
      refine moves_inner_bind (moves_declare _ _) fun _ => ?_
      split
      · exact ih h.2
      · rename_i inner hi
        refine moves_inner_bind (moves_inner (h.1.below _ (Node.mem_children_of_child? hi))) ?_
        exact fun v => moves_inner_bind (moves_declare _ _) fun _ => ih h.2

-- ------------------------------------------------------------------ nodes

theorem moves_expr {n : Node}
    (hcall : ∀ name f arguments, Moves E.outer (call name f arguments))
    (h : ∀ c ∈ n.children, Keeps E env call c) : Moves E.outer (expr env call n) := by
  have hchild {field : Field} {c : Node} (hc : n.child? field = some c) : Keeps E env call c :=
    h c (Node.mem_children_of_child? hc)
  have harguments : Moves E.outer (values env call (n.inRole .arguments)) :=
    moves_values fun c hc => h c (Node.mem_children_of_inRole hc)
  rw [expr]
  refine Moves.located ?_ _
  split
  · exact moves_look (still_literal _ _) fun _ => moves_still (still_pure _)
  · exact moves_look (still_variableValue _ _) fun _ => moves_still (still_pure _)
  · exact moves_look (still_lambda _ _) fun _ => moves_still (still_pure _)
  · -- a binary expression
    split
    · exact moves_still (still_misshapen _ _)
    · rename_i left hl
      refine moves_bind (hchild hl).valueOf fun a => ?_
      split
      · exact moves_still (still_misshapen _ _)
      · rename_i right hr
        refine moves_bind (hchild hr).valueOf fun b => ?_
        exact moves_look (still_operatorText _ _) fun _ =>
          moves_look (still_applyOperator _ _ _) fun _ => moves_still (still_pure _)
  · -- an attribute
    split
    · exact moves_still (still_misshapen _ _)
    · rename_i parent hp
      refine moves_bind (hchild hp).valueOf fun v => ?_
      split
      · exact moves_still (still_misshapen _ _)
      · exact moves_look (env.still_text _) fun _ =>
          moves_look (still_orFault _) fun _ => moves_still (still_pure _)
  · -- an array
    refine moves_bind (moves_values fun c hc => h c (Node.mem_children_of_named hc)) fun _ => ?_
    exact moves_still (still_pure _)
  · -- a conditional
    split
    · exact moves_still (still_misshapen _ _)
    · rename_i condition hc
      refine moves_bind (hchild hc).valueOf fun v => ?_
      split
      · split
        · split
          · exact moves_still (still_misshapen _ _)
          · rename_i consequence hk
            exact (hchild hk).block _
        · split
          · exact moves_still (still_pure _)
          · rename_i alternative ha
            split
            · exact (hchild ha).expr
            · exact (hchild ha).block _
      · exact moves_still (still_fault _)
  · -- a call
    split
    · exact moves_still (still_misshapen _ _)
    · rename_i callee hf
      split
      · refine moves_look (env.still_text _) fun name => moves_look still_scopes fun scopes => ?_
        refine moves_look (still_orNotCallable _) fun t => moves_bind harguments fun arguments => ?_
        exact moves_bind (moves_dispatch hcall _ _ _) fun _ => moves_still (still_pure _)
      · refine moves_bind (hchild hf).valueOf fun v => ?_
        refine moves_look (still_orNotCallable _) fun t => moves_bind harguments fun arguments => ?_
        exact moves_bind (moves_dispatch hcall _ _ _) fun _ => moves_still (still_pure _)
  · exact moves_still (still_misshapen _ _)

theorem moves_valueOf {n : Node} (h : Moves E.outer (expr env call n)) :
    Moves E.outer (valueOf env call n) := by
  rw [valueOf]
  refine moves_bind h fun signal => ?_
  cases signal with
  | value v => exact moves_still (still_pure _)
  | returned v => exact Moves.located (moves_still (still_fault _)) _

theorem moves_block {n : Node} (bindings : Frame φ) (h : ∀ c ∈ n.children, Keeps E env call c) :
    Moves E.outer (block env call bindings n) := by
  rw [block]
  split
  · exact moves_inScope _ (moves_statements fun c hc => h c (Node.mem_children_of_named hc))
  · exact moves_still (still_misshapen _ _)

theorem moves_plain {n : Node} (hassign : n.kind = .assignment → E.Assigns)
    (h : ∀ c ∈ n.children, Keeps E env call c) (hkind : n.kind ≠ .variableDeclaration) :
    Moves E.outer (statement env call n) := by
  have hchild {field : Field} {c : Node} (hc : n.child? field = some c) : Keeps E env call c :=
    h c (Node.mem_children_of_child? hc)
  rw [statement]
  refine Moves.located ?_ _
  refine moves_look (still_within _ _) fun _ => ?_
  split
  · -- an expression on its own
    split
    · exact moves_still (still_fail _)
    · rename_i inner rest hi
      have hmem : inner ∈ n.named := hi ▸ List.mem_cons_self
      exact (h _ (Node.mem_children_of_named hmem)).expr
  · rename_i hk
    exact absurd hk hkind
  · -- an assignment
    rename_i hk
    split
    · exact moves_still (still_misshapen _ _)
    · refine moves_look (still_expectKind _ _) fun lhs => ?_
      split
      · exact moves_still (still_misshapen _ _)
      · rename_i rhs hr
        refine moves_bind (hchild hr).valueOf fun v => ?_
        refine moves_look (env.still_text _) fun name => ?_
        intro s
        rw [scopes_bind]
        rcases ha : s.scopes.assign? name v with _ | scopes
        · exact E.refl s
        · exact hassign hk s _ _ _ ha
  · -- a return
    split
    · exact moves_still (still_pure _)
    · rename_i inner hi
      exact moves_bind (hchild hi).valueOf fun _ => moves_still (still_pure _)
  · exact moves_still (still_misshapen _ _)

theorem moves_declaration {n : Node} (h : ∀ c ∈ n.children, Keeps E env call c)
    (hkind : n.kind = .variableDeclaration) : Moves E.inner (statement env call n) := by
  rw [statement]
  refine Moves.located ?_ _
  refine moves_inner_bind (moves_inner (moves_still (still_within _ _))) fun _ => ?_
  simp only [hkind]
  refine moves_inner_bind (moves_declarators fun c hc => h c (Node.mem_children_of_named hc)) ?_
  exact fun _ => moves_inner (moves_still (still_pure _))

-- ------------------------------------------------------------------- runs

/-- What evaluating a node may do, given what calls may do. -/
theorem keeps {ok : Node → Prop} (hassign : ∀ n, ok n → n.kind = .assignment → E.Assigns)
    (hcall : ∀ name f arguments, Moves E.outer (call name f arguments)) (n : Node)
    (hn : n.All ok) : Keeps E env call n := by
  induction n using Node.children_induction with
  | step n ih =>
    have h : ∀ c ∈ n.children, Keeps E env call c := fun c hc => ih c hc (hn.child hc)
    have hexpr := moves_expr hcall h
    have hplain := moves_plain (hassign n hn.self) h
    exact {
      expr := hexpr
      valueOf := moves_valueOf hexpr
      block := fun bindings => moves_block bindings h
      statement := by
        by_cases hk : n.kind = .variableDeclaration
        · exact moves_declaration h hk
        · exact moves_inner (hplain hk)
      plain := hplain
      below := fun c hc => (h c hc).valueOf }

/-- What a call may do, however many more may become active in it. The
induction is on their number: the body runs with one call less to spare. -/
theorem moves_enter {ok : Node → Prop} (hassign : ∀ n, ok n → n.kind = .assignment → E.Assigns)
    (hbody : ∀ f body, env.body? f = some body → body.All ok) (free : Nat) :
    ∀ name f arguments, Moves E.outer (enter env free name f arguments) := by
  induction free with
  | zero =>
    intro name f arguments
    rw [enter]
    split
    · exact moves_still (still_fault _)
    · exact moves_expectKind fun body _ => moves_still (still_fault _)
  | succ free ih =>
    intro name f arguments
    rw [enter]
    split
    · exact moves_still (still_fault _)
    · refine moves_expectKind fun body hb => ?_
      refine moves_look (still_within _ _) fun _ => ?_
      have hrun : Keeps E env (enter env free) body := keeps hassign ih body (hbody f body hb)
      refine moves_bind (moves_inCall name (hrun.block _)) fun signal => ?_
      cases signal <;> exact moves_still (still_pure _)

end

end Effect

end SamScript
