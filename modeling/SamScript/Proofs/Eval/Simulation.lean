/-
Evaluation with functions kept in two ways, from nodes to programs. On a tree
that fits, each way to evaluate a node is mirrored, given that calls are
(`mirrors`, by induction down the tree); so calls are mirrored however many
more may become active (`mirrors_enter`, by induction on their number), and
with them whole programs (`mirrors_program`).
-/
import SamScript.Proofs.Eval.Fit

namespace SamScript

variable {φ ψ : Type}

open Run

namespace Eval

variable [Callable φ] [Callable ψ] [DecidableEq φ] [DecidableEq ψ]
  {env : Env φ} {q : Value φ → Prop} {e : φ → ψ} {close : Node → List String → ψ}
  {body? : ψ → Option Node} {call : Caller φ} {call' : Caller ψ} {n : Node}

/-- That each way to evaluate a node is mirrored. -/
structure MirrorsAt (env : Env φ) (q : Value φ → Prop) (e : φ → ψ)
    (close : Node → List String → ψ) (body? : ψ → Option Node) (call : Caller φ)
    (call' : Caller ψ) (n : Node) : Prop where
  expr : n.IsExpression → Mirrors e q (·.All q) (Signal.map e) (expr env call n)
    (expr (env.keeping close body?) call' n)
  valueOf : n.IsExpression → Mirrors e q (·.All q) (Value.map e) (valueOf env call n)
    (valueOf (env.keeping close body?) call' n)
  block : n.Is .statementBlock → ∀ bindings, Frame.All q bindings →
    Mirrors e q (·.All q) (Signal.map e) (block env call bindings n)
      (block (env.keeping close body?) call' (Frame.map e bindings) n)
  statement : n.IsStatement → Mirrors e q (·.All q) (Signal.map e) (statement env call n)
    (statement (env.keeping close body?) call' n)
  /-- For a declarator: its value. -/
  below : ∀ c ∈ n.children, c.IsExpression →
    Mirrors e q (·.All q) (Value.map e) (Eval.valueOf env call c)
      (Eval.valueOf (env.keeping close body?) call' c)

-- ================================================================== lists

theorem mirrors_values {ns : List Node}
    (h : ∀ n ∈ ns, MirrorsAt env q e close body? call call' n) (hk : ∀ n ∈ ns, n.IsExpression) :
    Mirrors e q (fun vs => ∀ v ∈ vs, v.All q) (List.map (Value.map e)) (values env call ns)
      (values (env.keeping close body?) call' ns) := by
  induction ns with
  | nil =>
    rw [values, values]
    exact mirrors_pure fun v hv => absurd hv List.not_mem_nil
  | cons n rest ih =>
    rw [List.forall_mem_cons] at h hk
    rw [values, values]
    refine (h.1.valueOf hk.1).bind fun v hv => ?_
    exact (ih h.2 hk.2).bind fun vs hvs => mirrors_pure (List.forall_mem_cons.2 ⟨hv, hvs⟩)

theorem mirrors_statements (hq : Value.Plain q) {ns : List Node}
    (h : ∀ n ∈ ns, MirrorsAt env q e close body? call call' n) (hk : ∀ n ∈ ns, n.IsStatement) :
    Mirrors e q (·.All q) (Signal.map e) (statements env call ns)
      (statements (env.keeping close body?) call' ns) := by
  induction ns with
  | nil =>
    rw [statements, statements]
    exact mirrors_pure hq.all_undefined
  | cons n rest ih =>
    rw [List.forall_mem_cons] at h hk
    rw [statements, statements]
    refine (h.1.statement hk.1).bind fun signal hsignal => ?_
    cases signal with
    | returned v => exact mirrors_pure hsignal
    | value v => exact ih h.2 hk.2

theorem mirrors_initial (h : MirrorsAt env q e close body? call call' n) (name : String)
    (hvalue : n.MayHave .value Node.IsExpression) :
    Mirrors e q (fun _ => True) id (initial env call name (n.child? .value))
      (initial (env.keeping close body?) call' name (n.child? .value)) := by
  cases hi : n.child? .value with
  | none => exact mirrors_pure trivial
  | some inner =>
    refine (h.below inner (Node.mem_children_of_child? hi) (hvalue inner hi)).bind fun v hv => ?_
    exact mirrors_declare name hv

theorem mirrors_declarators (hfit : Fit env q) {ns : List Node}
    (hns : ∀ n ∈ ns, n ∈ env.root.preorder)
    (h : ∀ n ∈ ns, MirrorsAt env q e close body? call call' n)
    (hk : ∀ n ∈ ns, n.Is .variableDeclarator) :
    Mirrors e q (fun _ => True) id (declarators env call ns)
      (declarators (env.keeping close body?) call' ns) := by
  induction ns with
  | nil =>
    rw [declarators, declarators]
    exact mirrors_pure trivial
  | cons n rest ih =>
    rw [List.forall_mem_cons] at hns h hk
    obtain ⟨⟨variable_, hvariable, -⟩, hvalue⟩ := hfit.shape hns.1 hk.1
    have hmem := Node.mem_preorder_child hns.1 (Node.mem_children_of_child? hvariable)
    rw [declarators_cons hk.1.2 hvariable, declarators_cons hk.1.2 hvariable]
    refine (mirrors_text hfit hmem).bind fun name _ => ?_
    refine (mirrors_declare name hfit.plain.all_undefined).bind fun _ _ => ?_
    exact (mirrors_initial h.1 name hvalue).bind fun _ _ => ih hns.2 h.2 hk.2

-- ================================================================== nodes

section

variable (h : Fit env q) (hn : n ∈ env.root.preorder)
  (hchildren : ∀ c ∈ n.children, MirrorsAt env q e close body? call call' c)

include h hn hchildren

theorem mirrors_binary (k : Keeping env q e close body?) (hk : n.Is .binaryExpression) :
    Mirrors e q (·.All q) (Signal.map e) (expr env call n)
      (expr (env.keeping close body?) call' n) := by
  obtain ⟨⟨left, hleft, hleft'⟩, ⟨right, hright, hright'⟩, hop⟩ := h.shape hn hk
  have hl := hchildren left (Node.mem_children_of_child? hleft)
  have hr := hchildren right (Node.mem_children_of_child? hright)
  rw [expr_binary hk.2 hleft hright, expr_binary hk.2 hleft hright]
  refine Mirrors.located ?_ _
  refine (hl.valueOf hleft').bind fun a ha => ?_
  refine (hr.valueOf hright').bind fun b hb => ?_
  refine (mirrors_operatorText h hn hop).bind fun op hop => ?_
  exact (mirrors_applyOperator h.plain k.separates ha hb hop).bind fun v hv => mirrors_pure hv

theorem mirrors_access (hk : n.Is .nestedIdentifier) :
    Mirrors e q (·.All q) (Signal.map e) (expr env call n)
      (expr (env.keeping close body?) call' n) := by
  obtain ⟨⟨parent, hparent, hparent'⟩, name, hname, -⟩ := h.shape hn hk
  have hp := hchildren parent (Node.mem_children_of_child? hparent)
  have hmem := Node.mem_preorder_child hn (Node.mem_children_of_child? hname)
  rw [expr_access hk.2 hparent hname, expr_access hk.2 hparent hname]
  refine Mirrors.located ?_ _
  refine (hp.valueOf hparent').bind fun v hv => ?_
  refine (mirrors_text h hmem).bind fun name _ => ?_
  exact (mirrors_attributeOf hv name).bind fun v hv => mirrors_pure hv

theorem mirrors_array (hk : n.Is .arrayExpression) :
    Mirrors e q (·.All q) (Signal.map e) (expr env call n)
      (expr (env.keeping close body?) call' n) := by
  rw [expr_array hk.2, expr_array hk.2]
  refine Mirrors.located ?_ _
  refine (mirrors_values (fun c hc => hchildren c (Node.mem_children_of_named hc))
    (h.shape hn hk)).bind fun vs hvs => ?_
  rw [← Value.mapItems_eq]
  exact mirrors_pure (Value.all_array.2 ⟨h.plain.array vs, hvs⟩)

/-- The arm that is not taken is not looked at. -/
theorem mirrors_if (hk : n.Is .ifExpression) :
    Mirrors e q (·.All q) (Signal.map e) (expr env call n)
      (expr (env.keeping close body?) call' n) := by
  have hempty : Frame.All q ([] : Frame φ) := fun p hp => nomatch hp
  obtain ⟨⟨condition, hcondition, hcondition'⟩, ⟨consequence, hconsequence, hblock⟩, helse⟩ :=
    h.shape hn hk
  have htest := hchildren condition (Node.mem_children_of_child? hcondition)
  have harm := hchildren consequence (Node.mem_children_of_child? hconsequence)
  rw [expr_if hk.2 hcondition hconsequence, expr_if hk.2 hcondition hconsequence]
  refine Mirrors.located ?_ _
  refine (htest.valueOf hcondition').bind fun v hv => ?_
  cases v with
  | int test =>
    simp only [Value.map]
    split
    · exact harm.block hblock _ hempty
    · cases ha : n.child? .else_ with
      | none => exact mirrors_pure h.plain.all_undefined
      | some alternative =>
        have hother := hchildren alternative (Node.mem_children_of_child? ha)
        unfold otherwise
        dsimp only
        rcases helse alternative ha with hif | hblock
        · rw [if_pos hif.2, if_pos hif.2]
          exact hother.expr ⟨hif.1, by rw [hif.2]; rfl⟩
        · have hno : alternative.kind ≠ .ifExpression := by
            rw [hblock.2]
            decide
          rw [if_neg hno, if_neg hno]
          exact hother.block hblock _ hempty
  | _ => exact mirrors_fault rfl

theorem mirrors_call (k : Keeping env q e close body?) (hcall : MirrorsCalls q e call call')
    (hk : n.Is .callExpression) :
    Mirrors e q (·.All q) (Signal.map e) (expr env call n)
      (expr (env.keeping close body?) call' n) := by
  obtain ⟨⟨callee, hcallee, hcallee'⟩, hitems⟩ := h.shape hn hk
  have hc := hchildren callee (Node.mem_children_of_child? hcallee)
  have hmem := Node.mem_preorder_child hn (Node.mem_children_of_child? hcallee)
  have harguments : Mirrors e q (fun vs => ∀ v ∈ vs, v.All q) (List.map (Value.map e))
      (values env call (n.inRole .arguments))
      (values (env.keeping close body?) call' (n.inRole .arguments)) :=
    mirrors_values (fun c hc => hchildren c (Node.mem_children_of_inRole hc)) hitems
  by_cases hname : callee.kind = .identifier
  · rw [expr_call_name hk.2 hcallee hname, expr_call_name hk.2 hcallee hname]
    refine Mirrors.located ?_ _
    refine (mirrors_text h hmem).bind fun name _ => ?_
    refine mirrors_scopes.bind fun scopes hs => ?_
    rw [id, target_map]
    refine (mirrors_orNotCallable fun t ht => all_target hs ht).bind fun t ht => ?_
    refine harguments.bind fun arguments hargs => ?_
    exact (mirrors_dispatch h k hcall name hargs ht).bind fun v hv => mirrors_pure hv
  · rw [expr_call_value hk.2 hcallee hname, expr_call_value hk.2 hcallee hname]
    refine Mirrors.located ?_ _
    refine (hc.valueOf hcallee').bind fun v hv => ?_
    rw [valueTarget_map]
    refine (mirrors_orNotCallable fun t ht => all_valueTarget hv ht).bind fun t ht => ?_
    refine harguments.bind fun arguments hargs => ?_
    exact (mirrors_dispatch h k hcall "<anonymous>" hargs ht).bind fun v hv => mirrors_pure hv

theorem mirrors_expr (k : Keeping env q e close body?) (hcall : MirrorsCalls q e call call')
    (hk : n.IsExpression) :
    Mirrors e q (·.All q) (Signal.map e) (expr env call n)
      (expr (env.keeping close body?) call' n) := by
  rcases hk.cases with hk | hk | hk | hk | hk | hk | hk | hk
  · rw [expr_literal hk.2, expr_literal hk.2]
    refine Mirrors.located ?_ _
    exact (mirrors_literal h hn hk).bind fun v hv => mirrors_pure hv
  · rw [expr_name hk.2, expr_name hk.2]
    refine Mirrors.located ?_ _
    exact (mirrors_variableValue h hn).bind fun v hv => mirrors_pure hv
  · rw [expr_lambda hk.2, expr_lambda hk.2]
    refine Mirrors.located ?_ _
    exact (mirrors_lambda h k hn hk).bind fun v hv => mirrors_pure hv
  · exact mirrors_binary h hn hchildren k hk
  · exact mirrors_access h hn hchildren hk
  · exact mirrors_array h hn hchildren hk
  · exact mirrors_if h hn hchildren hk
  · exact mirrors_call h hn hchildren k hcall hk

end

theorem mirrors_valueOf (h : Mirrors e q (·.All q) (Signal.map e) (expr env call n)
      (expr (env.keeping close body?) call' n)) :
    Mirrors e q (·.All q) (Value.map e) (valueOf env call n)
      (valueOf (env.keeping close body?) call' n) := by
  rw [valueOf, valueOf]
  refine h.bind fun signal hsignal => ?_
  cases signal with
  | value v => exact mirrors_pure hsignal
  | returned v => exact Mirrors.located (mirrors_fault rfl) _

theorem mirrors_block (h : Fit env q) (hn : n ∈ env.root.preorder)
    (hchildren : ∀ c ∈ n.children, MirrorsAt env q e close body? call call' c)
    (hk : n.Is .statementBlock) {bindings : Frame φ} (hbindings : Frame.All q bindings) :
    Mirrors e q (·.All q) (Signal.map e) (block env call bindings n)
      (block (env.keeping close body?) call' (Frame.map e bindings) n) := by
  rw [block_eq hk.2, block_eq hk.2]
  refine Mirrors.inScope (mirrors_statements h.plain (fun c hc => ?_) (h.shape hn hk).2) hbindings
  exact hchildren c (Node.mem_children_of_named hc)

theorem mirrors_statement (h : Fit env q) (hn : n ∈ env.root.preorder)
    (hchildren : ∀ c ∈ n.children, MirrorsAt env q e close body? call call' c)
    (hk : n.IsStatement) :
    Mirrors e q (·.All q) (Signal.map e) (statement env call n)
      (statement (env.keeping close body?) call' n) := by
  have hchild {field : Field} {c : Node} (hc : n.child? field = some c) :
      MirrorsAt env q e close body? call call' c :=
    hchildren c (Node.mem_children_of_child? hc)
  rcases hk.cases with hk | hk | hk | hk
  · -- an expression on its own
    obtain ⟨inner, rest, hnamed, hinner⟩ := h.shape hn hk
    have hc : inner ∈ n.named := hnamed ▸ List.mem_cons_self
    rw [statement_expression hk.2 hnamed, statement_expression hk.2 hnamed]
    refine Mirrors.located ((mirrors_depth n).bind fun _ _ => ?_) _
    exact (hchildren inner (Node.mem_children_of_named hc)).expr hinner
  · -- a declaration
    rw [statement_declaration hk.2, statement_declaration hk.2]
    refine Mirrors.located ((mirrors_depth n).bind fun _ _ => ?_) _
    refine (mirrors_declarators h (fun c hc => ?_) (fun c hc => ?_) (h.shape hn hk)).bind
      fun _ _ => mirrors_pure h.plain.all_undefined
    · exact Node.mem_preorder_child hn (Node.mem_children_of_named hc)
    · exact hchildren c (Node.mem_children_of_named hc)
  · -- an assignment
    obtain ⟨⟨lhs, hlhs, hname⟩, rhs, hrhs, hvalue⟩ := h.shape hn hk
    have hmem := Node.mem_preorder_child hn (Node.mem_children_of_child? hlhs)
    rw [statement_assignment hk.2 hlhs hname.2 hrhs, statement_assignment hk.2 hlhs hname.2 hrhs]
    refine Mirrors.located ((mirrors_depth n).bind fun _ _ => ?_) _
    refine ((hchild hrhs).valueOf hvalue).bind fun v hv => ?_
    refine (mirrors_text h hmem).bind fun name _ => ?_
    refine mirrors_scopes.bind fun scopes hs => ?_
    rw [id, Scopes.assign?_map]
    cases ha : scopes.assign? name v with
    | none => exact mirrors_fault rfl
    | some scopes' =>
      refine Mirrors.bind (mirrors_modifyScopes (fun _ _ => hs.assign? hv ha) fun _ => rfl) ?_
      exact fun _ _ => mirrors_pure hv
  · -- a return
    cases hi : n.child? .value with
    | none =>
      rw [statement_return_none hk.2 hi, statement_return_none hk.2 hi]
      refine Mirrors.located ((mirrors_depth n).bind fun _ _ => ?_) _
      exact mirrors_pure h.plain.all_undefined
    | some inner =>
      rw [statement_return_some hk.2 hi, statement_return_some hk.2 hi]
      refine Mirrors.located ((mirrors_depth n).bind fun _ _ => ?_) _
      refine ((hchild hi).valueOf ?_).bind fun v hv => mirrors_pure hv
      exact h.shape hn hk inner hi

/-- Every way to evaluate a node of the tree is mirrored, given that calls
are. -/
theorem mirrors (h : Fit env q) (k : Keeping env q e close body?)
    (hcall : MirrorsCalls q e call call') (n : Node) (hn : n ∈ env.root.preorder) :
    MirrorsAt env q e close body? call call' n := by
  induction n using Node.children_induction with
  | step n ih =>
    have hchildren : ∀ c ∈ n.children, MirrorsAt env q e close body? call call' c := fun c hc =>
      ih c hc (Node.mem_preorder_child hn hc)
    have hexpr := mirrors_expr h hn hchildren k hcall
    exact {
      expr := hexpr
      valueOf := fun hk => mirrors_valueOf (hexpr hk)
      block := fun hk bindings hbindings => mirrors_block h hn hchildren hk hbindings
      statement := mirrors_statement h hn hchildren
      below := fun c hc hk => (hchildren c hc).valueOf hk }

-- ================================================================== calls

/-- Calls are mirrored, however many more may become active in them. -/
theorem mirrors_enter (h : Fit env q) (k : Keeping env q e close body?) (free : Nat) :
    MirrorsCalls q e (enter env free) (enter (env.keeping close body?) free) := by
  have hlimit : (env.keeping close body?).config = env.config := rfl
  induction free with
  | zero =>
    intro name f arguments hf hargs
    obtain ⟨body, hbody, hfound, hk⟩ := h.body f hf
    rw [enter, enter, k.parameters, List.length_map]
    split
    · exact mirrors_fault rfl
    · rw [show (env.keeping close body?).body? (e f) = env.body? f from k.found f hf, hfound]
      exact (mirrors_expectKind hk.2).bind fun _ _ => mirrors_fault rfl
  | succ free ih =>
    intro name f arguments hf hargs
    obtain ⟨body, hbody, hfound, hk⟩ := h.body f hf
    rw [enter, enter, k.parameters, List.length_map]
    split
    · exact mirrors_fault rfl
    · rw [show (env.keeping close body?).body? (e f) = env.body? f from k.found f hf, hfound]
      refine (mirrors_expectKind hk.2).bind fun m hm => ?_
      subst hm
      refine Mirrors.bind (mirrors_within _ fun _ => rfl) fun _ _ => ?_
      have hbindings : Frame.All q (Bindings.ofList ((Callable.parameters f).zip arguments)) :=
        Frame.All.ofList_zip hargs
      have hrun := ((mirrors h k ih m hbody).block hk _ hbindings).inCall name
      rw [Frame.map_ofList_zip] at hrun
      refine hrun.bind fun signal hsignal => ?_
      cases signal with
      | returned v => exact mirrors_pure hsignal
      | value v => exact mirrors_pure h.plain.all_undefined

-- =============================================================== programs

/-- The statements of a program are mirrored. -/
theorem mirrors_topLevel (h : Fit env q) (k : Keeping env q e close body?)
    (hcall : MirrorsCalls q e call call') {ns : List Node}
    (hns : ∀ n ∈ ns, n ∈ env.root.preorder) (hk : ∀ n ∈ ns, n.IsStatement) :
    Mirrors e q (fun _ => True) id (topLevel env call ns)
      (topLevel (env.keeping close body?) call' ns) := by
  induction ns with
  | nil => exact mirrors_pure trivial
  | cons n rest ih =>
    rw [List.forall_mem_cons] at hns hk
    rw [topLevel, topLevel]
    refine (((mirrors h k hcall n hns.1).statement hk.1).blamed _).bind fun signal _ => ?_
    cases signal with
    | returned v => exact Mirrors.located (mirrors_fault rfl) _
    | value v => exact ih hns.2 hk.2

/-- A program is mirrored. -/
theorem mirrors_program (h : Fit env q) (k : Keeping env q e close body?)
    (hroot : env.root.Is .sourceFile) :
    Mirrors e q (fun _ => True) id (program env) (program (env.keeping close body?)) := by
  have hself := Node.mem_preorder_self env.root
  have hshape := h.shape hself hroot
  have hcall := mirrors_enter h k env.config.maxCallDepth
  have hmem : ∀ n ∈ env.root.named, n ∈ env.root.preorder := fun n hn =>
    Node.mem_preorder_child hself (Node.mem_children_of_named hn)
  unfold program
  refine (mirrors_expectKind hroot.2).bind fun root hr => ?_
  subst hr
  rw [id]
  cases hnamed : env.root.named with
  | nil => exact mirrors_pure trivial
  | cons first rest =>
    rw [hnamed, List.forall_mem_cons] at hmem
    obtain ⟨hfirst, hrest⟩ := hshape first rest hnamed
    dsimp only
    split
    · rename_i hk
      -- the declarations are gathered under one node
      have hinterfaces : first.Is .interfaces := by
        rcases hfirst with hf | hf
        · exact hf
        · rw [Node.IsStatement, hk] at hf
          cases hf.2
      refine (mirrors_interfaces h (fun c hc => ?_) (h.shape hmem.1 hinterfaces)).bind
        fun _ _ => mirrors_topLevel h k hcall hmem.2 hrest
      exact Node.mem_preorder_child hmem.1 (Node.mem_children_of_named hc)
    · rename_i hk
      have hstatement : first.IsStatement := by
        rcases hfirst with hf | hf
        · exact absurd hf.2 hk
        · exact hf
      exact mirrors_topLevel h k hcall (List.forall_mem_cons.2 hmem)
        (List.forall_mem_cons.2 ⟨hstatement, hrest⟩)

end Eval

end SamScript
