/-
How a run that starts nothing can end. What a run brings from outside comes
through programs that it starts, and through the manifests that interface
declarations name; without either, all that can go wrong lies in the tree and
in what was in scope. `Exit` lists it: a fault that is the program's own, a
start that was refused, a bound that was exhausted, and five conditions that no
report describes, each with the node of the tree that it is about.

A failure that comes after a start is none of these, and may still be seen
long after the start. So the invariant is about two things at once
(`Run.ExitsFrom`): what was started stays started, and where nothing was added
to it in the end, a failure is an exit. The first half is what makes the second
one compose, since a step that added nothing had no step in it that did.
-/
import SamScript.Proofs.Eval.Blame
import SamScript.Proofs.Eval.Reached
import SamScript.Proofs.Tree.Shape

namespace SamScript

variable {φ α β : Type}

-- ================================================================== exits

namespace Eval

section

variable [Callable φ] [DecidableEq φ]

/-- Whether an expression asks for a remainder and its operands, one after the
other, come to values that have none. -/
def LacksRemainder (env : Env φ) (n : Node) : Prop :=
  n.kind = .binaryExpression ∧ operatorText env n = pure Operator.remainder.text ∧
    ∃ left right, n.child? .left = some left ∧ n.child? .right = some right ∧
      ∃ free s t u a b, valueOf env (enter env free) left s = (.ok a, t) ∧
        valueOf env (enter env free) right t = (.ok b, u) ∧
        a.remainder b = .error .noRemainder

/-- How the evaluation of a tree may fail while nothing is started. -/
inductive Exit (env : Env φ) : Failure → Prop where
  | fault {cause place} : cause.isForeign = false → Exit env (.fault cause place)
  /-- A program could not be started. -/
  | refused {command reason place} : Exit env (.fault (.startFailed command reason) place)
  | exhausted : Exit env .exhausted
  /-- The bytes of a node begin or end inside a character. -/
  | text {n flaw} : n ∈ env.root.preorder → Utf8.decode? (n.bytes env.source) = .error flaw →
      Exit env (.abort (.brokenText flaw))
  /-- What a number spells cannot be read. -/
  | number {n text fault} : n ∈ env.root.preorder → n.Is .number → env.text n = pure text →
      Literal.number? text.toList = .error fault → Exit env (.abort (.number fault))
  /-- A statement has no expression. -/
  | bare {n} : n ∈ env.root.preorder → n.Is .expressionStatement → n.named = [] →
      Exit env (.abort .missingExpression)
  | remainder {n} : n ∈ env.root.preorder → LacksRemainder env n →
      Exit env (.abort .noRemainder)

/-- An exit stays one where a place is found for it. -/
theorem Exit.locate {env : Env φ} {e : Failure} (h : Exit env e) (place : Place) :
    Exit env (e.locate place) := by
  cases e with
  | fault cause known =>
    cases known with
    | none =>
      cases h with
      | fault hcause => exact .fault hcause
      | refused => exact .refused
    | some known => exact h
  | abort cause => exact h
  | exhausted => exact h

end

end Eval

namespace Run

/-- From a state, a step keeps what was started, and if it starts nothing
more, whatever failure it ends in is one of some. -/
def ExitsFrom (P : Failure → Prop) (x : Run φ α) (s : RunState φ) : Prop :=
  s.started <:+ (x s).2.started ∧ ((x s).2.started = s.started → FailsAs P x s)

/-- A step that does so from every state. -/
def Exits (P : Failure → Prop) (x : Run φ α) : Prop :=
  ∀ s, ExitsFrom P x s

variable {P : Failure → Prop} {x : Run φ α} {f : α → Run φ β} {s : RunState φ}

-- ================================================================== steps

/-- A step that only looks. -/
theorem Still.exitsFrom (hx : Still x) (hfails : FailsAs P x s) : ExitsFrom P x s :=
  ⟨(hx s).symm ▸ List.suffix_refl _, fun _ => hfails⟩

theorem exits_pure {a : α} : Exits P (pure a : Run φ α) :=
  fun _ => (still_pure a).exitsFrom failsAs_pure

theorem exits_fail {e : Failure} (h : P e) : Exits P (fail e : Run φ α) :=
  fun _ => (still_fail e).exitsFrom (failsAs_fail h)

theorem exits_lift {r : Except Failure α} (h : ∀ e, r = .error e → P e) :
    Exits P (lift r : Run φ α) :=
  fun _ => (still_lift r).exitsFrom h

theorem exits_scopes : Exits P (scopes : Run φ (Scopes φ)) :=
  fun _ => still_scopes.exitsFrom fun _ he => nomatch he

theorem exits_modifyScopes (g : Scopes φ → Scopes φ) : Exits P (modifyScopes g) :=
  fun _ => ⟨List.suffix_refl _, fun _ _ he => nomatch he⟩

theorem Exits.mono {Q : Failure → Prop} (hx : Exits P x) (h : ∀ e, P e → Q e) : Exits Q x :=
  fun s => ⟨(hx s).1, fun hs => ((hx s).2 hs).mono h⟩

/-- One step after the other. Where the second has added nothing to what was
started, neither has the first. -/
theorem ExitsFrom.bind (hx : ExitsFrom P x s)
    (hf : ∀ a t, x s = (.ok a, t) → ExitsFrom P (f a) t) : ExitsFrom P (x >>= f) s := by
  obtain ⟨hkept, hfails⟩ := hx
  unfold ExitsFrom FailsAs
  rw [bind_apply]
  rcases hr : x s with ⟨e | a, t⟩
  · rw [hr] at hkept hfails
    exact ⟨hkept, fun hs e' he => Except.error.inj he ▸ hfails hs e (by rw [hr])⟩
  · rw [hr] at hkept
    obtain ⟨hkept', hfails'⟩ := hf a t hr
    refine ⟨hkept.trans hkept', fun hs => hfails' ?_⟩
    rw [← hs] at hkept
    exact (hkept'.eq_of_length_le hkept.length_le).symm

theorem Exits.bind (hx : Exits P x) (hf : ∀ a, Exits P (f a)) : Exits P (x >>= f) :=
  fun s => (hx s).bind fun a t _ => hf a t

theorem Exits.inScope (hx : Exits P x) (frame : Frame φ) : Exits P (inScope frame x) :=
  fun s => hx { s with scopes := s.scopes.push frame }

theorem Exits.inCall (hx : Exits P x) (name : String) : Exits P (inCall name x) :=
  fun s => hx { s with calls := name :: s.calls }

theorem ExitsFrom.located {place : Place} (hx : ExitsFrom P x s)
    (h : ∀ e, P e → P (e.locate place)) : ExitsFrom P (located place x) s := by
  obtain ⟨hkept, hfails⟩ := hx
  unfold ExitsFrom FailsAs Run.located
  rcases hr : x s with ⟨e | a, t⟩
  · rw [hr] at hkept hfails
    exact ⟨hkept, fun hs e' he => Except.error.inj he ▸ h e (hfails hs e (by rw [hr]))⟩
  · rw [hr] at hkept
    exact ⟨hkept, fun _ e' he => nomatch he⟩

/-- A statement of a program exhausts nothing: that is a fault there. -/
theorem Exits.blamed (hx : Exits P x) {place : Place}
    (h : P (.fault .stackExhausted (some place))) :
    Exits (fun e => P e ∧ e ≠ .exhausted) (Eval.blamed place x) := by
  intro s
  obtain ⟨hkept, hfails⟩ := hx s
  unfold ExitsFrom FailsAs Eval.blamed
  rcases hr : x s with ⟨e | a, t⟩
  · rw [hr] at hkept hfails
    have he : t.started = s.started → P e := fun hs => hfails hs e (by rw [hr])
    cases e with
    | exhausted => exact ⟨hkept, fun _ e' h' => Except.error.inj h' ▸ ⟨h, nofun⟩⟩
    | fault cause known => exact ⟨hkept, fun hs e' h' => Except.error.inj h' ▸ ⟨he hs, nofun⟩⟩
    | abort cause => exact ⟨hkept, fun hs e' h' => Except.error.inj h' ▸ ⟨he hs, nofun⟩⟩
  · rw [hr] at hkept
    exact ⟨hkept, fun _ e' he => nomatch he⟩

end Run

namespace Eval

open Run

variable [Callable φ] [DecidableEq φ] {env : Env φ} {n : Node} {free : Nat}

theorem exits_fault {cause : EvalFault} (h : cause.isForeign = false) :
    Exits (Exit env) (fault cause : Run φ α) :=
  exits_fail (.fault h)

theorem exits_misshapen (expected : String) (found : NodeKind) :
    Exits (Exit env) (misshapen expected found : Run φ α) :=
  exits_fault rfl

theorem exits_expectKind (kind : NodeKind) (o : Option Node) :
    Exits (Exit env) (expectKind kind o : Run φ Node) := by
  cases o with
  | none => exact exits_fault rfl
  | some n =>
    by_cases h : n.kind = kind
    · rw [expectKind_of_eq h]
      exact exits_pure
    · rw [expectKind_of_ne h]
      exact exits_misshapen _ _

theorem exits_within (bound : Option Nat) (measure : RunState φ → Nat) :
    Exits (Exit env) (within bound measure) := by
  refine fun s => (still_within bound measure).exitsFrom fun e he => ?_
  unfold within at he
  split at he
  · cases he
  · split at he
    · cases he
      exact .exhausted
    · cases he

/-- A node of a kind, and then more. -/
theorem exits_expectKind_bind {kind : NodeKind} {o : Option Node} {f : Node → Run φ β}
    (h : ∀ m, o = some m → m.kind = kind → Exits (Exit env) (f m)) :
    Exits (Exit env) (expectKind kind o >>= f) := by
  refine fun s => (exits_expectKind kind o s).bind fun m t hm => ?_
  obtain ⟨ho, hk⟩ := of_expectKind ((settled_expectKind kind o).eq_pure (congrArg Prod.fst hm))
  exact h m ho hk t

-- ================================================================= leaves

theorem exits_text (hn : n ∈ env.root.preorder) : Exits (Exit env) (env.text n) := by
  unfold Env.text
  split
  · exact exits_pure
  · rename_i flaw hflaw
    exact exits_fail (.text hn hflaw)

theorem exits_piece (hn : n ∈ env.root.preorder) : Exits (Exit env) (piece env n) := by
  unfold piece
  split
  · exact (exits_text hn).bind fun _ => exits_pure
  · exact (exits_text hn).bind fun _ => exits_pure
  · exact exits_misshapen _ _

theorem exits_pieces {ns : List Node} (hns : ∀ n ∈ ns, n ∈ env.root.preorder) :
    Exits (Exit env) (pieces env ns) := by
  induction ns with
  | nil => exact exits_pure
  | cons n rest ih =>
    rw [List.forall_mem_cons] at hns
    exact (exits_piece hns.1).bind fun _ => (ih hns.2).bind fun _ => exits_pure

theorem exits_stringText (hn : n ∈ env.root.preorder) : Exits (Exit env) (stringText env n) := by
  refine exits_expectKind_bind fun m hm _ => ?_
  cases hm
  refine (exits_pieces fun c hc => ?_).bind fun _ => exits_pure
  exact Node.mem_preorder_child hn (Node.mem_children_of_named hc)

theorem exits_number (hn : n ∈ env.root.preorder) (hk : n.Is .number) :
    Exits (Exit env) (env.text n >>= fun text => number text) := by
  refine fun s => (exits_text hn s).bind fun text t ht => ?_
  have htext : env.text n = pure text := (env.settled_text n).eq_pure (congrArg Prod.fst ht)
  unfold number
  split
  · rename_i fault hfault
    exact exits_fail (.number hn hk htext hfault) t
  · exact exits_fault rfl t
  · exact exits_pure t

theorem exits_literal (hn : n ∈ env.root.preorder) : Exits (Exit env) (literal env n) := by
  unfold literal
  split
  · exact exits_fault rfl
  · rename_i inner rest hi
    have hinner : inner ∈ n.named := hi ▸ List.mem_cons_self
    have hmem := Node.mem_preorder_child hn (Node.mem_children_of_named hinner)
    split
    · rename_i hk
      exact exits_number hmem ⟨(List.mem_filter.1 hinner).2, hk⟩
    · exact (exits_stringText hmem).bind fun _ => exits_pure
    · exact exits_misshapen _ _

theorem exits_variableValue (hn : n ∈ env.root.preorder) :
    Exits (Exit env) (variableValue env n) := by
  refine (exits_text hn).bind fun _ => exits_scopes.bind fun _ => ?_
  split
  · exact exits_pure
  · exact exits_fault rfl

theorem exits_parameterNames {ns : List Node} (hns : ∀ n ∈ ns, n ∈ env.root.preorder) :
    Exits (Exit env) (parameterNames env ns) := by
  induction ns with
  | nil => exact exits_pure
  | cons n rest ih =>
    rw [List.forall_mem_cons] at hns
    refine exits_expectKind_bind fun m hm _ => ?_
    cases hm
    exact (exits_text hns.1).bind fun _ => (ih hns.2).bind fun _ => exits_pure

theorem exits_lambda (hn : n ∈ env.root.preorder) : Exits (Exit env) (lambda env n) := by
  unfold lambda
  split
  · exact exits_misshapen _ _
  · refine (exits_expectKind _ _).bind fun _ => ?_
    refine (exits_parameterNames fun c hc => ?_).bind fun _ => exits_pure
    exact Node.mem_preorder_child hn (Node.mem_children_of_inRole hc)

theorem exits_attributeOf (v : Value φ) (name : String) :
    Exits (Exit env) (orFault (attributeOf v name)) := by
  refine exits_lift fun e he => ?_
  unfold attributeOf at he
  split at he
  · split at he
    · cases he
    · cases he
      exact .fault rfl
  · cases he
    exact .fault rfl

theorem exits_orNotCallable (t : Except Kind (Target φ)) :
    Exits (Exit env) (orNotCallable t) := by
  refine exits_lift fun e he => ?_
  cases t with
  | ok target => cases he
  | error kind =>
    cases he
    exact .fault rfl

/-- Where a program starts, something is added to what was started. -/
theorem exits_launch (l : Foreign.Launch φ) : Exits (Exit env) (launch env l) := by
  intro s
  unfold ExitsFrom FailsAs launch
  dsimp only
  generalize env.host.start _ _ = result
  cases result with
  | error fault => exact ⟨List.suffix_refl _, fun _ e he => Except.error.inj he ▸ .refused⟩
  | ok finished =>
    refine ⟨List.suffix_cons _ _, fun hs => ?_⟩
    exact absurd (congrArg List.length hs) (Nat.succ_ne_self _)

-- ============================================================== operators

omit [Callable φ] in
/-- Only a remainder has no value without a fault. -/
theorem remainder_of_apply {op : Operator} {a b : Value φ}
    (h : op.apply a b = .error .noRemainder) :
    op = .remainder ∧ a.remainder b = .error .noRemainder := by
  have hcompare (op : Operator) : a.compare op b ≠ .error .noRemainder := by
    unfold Value.compare
    split
    · split <;> exact nofun
    · exact nofun
  cases op with
  | remainder => exact ⟨rfl, h⟩
  | less | greater | lessEqual | greaterEqual => exact absurd h (hcompare _)
  | add | subtract | multiply | divide | equal | notEqual | and | or => cases h

/-- Two children of different roles are two children. -/
theorem operator_of_operands {left right : Node} (hleft : n.child? .left = some left)
    (hright : n.child? .right = some right) : ∃ op, n.children[1]? = some op := by
  have hl := List.find?_some hleft
  have hr := List.find?_some hright
  have hmem := Node.mem_children_of_child? hleft
  have hmem' := Node.mem_children_of_child? hright
  rcases hc : n.children with _ | ⟨c, _ | ⟨d, rest⟩⟩
  · rw [hc] at hmem
    cases hmem
  · rw [hc, List.mem_singleton] at hmem hmem'
    rw [hmem, ← hmem'] at hl
    simp only [decide_eq_true_eq] at hl hr
    rw [hr] at hl
    cases hl
  · exact ⟨d, rfl⟩

/-- The operator of an expression that has both operands, applied to what they
came to. -/
theorem exits_operator {left right : Node} {s t u : RunState φ} {a b : Value φ}
    (hn : n ∈ env.root.preorder) (hk : n.kind = .binaryExpression)
    (hleft : n.child? .left = some left) (hright : n.child? .right = some right)
    (ha : valueOf env (enter env free) left s = (.ok a, t))
    (hb : valueOf env (enter env free) right t = (.ok b, u)) :
    ExitsFrom (Exit env) (operatorText env n >>= fun op => applyOperator op a b) u := by
  obtain ⟨op, hop⟩ := operator_of_operands hleft hright
  have htext : operatorText env n = env.text op := by
    unfold operatorText
    rw [hop]
  have hmem : op ∈ env.root.preorder :=
    Node.mem_preorder_child hn (List.mem_of_getElem? hop)
  rw [htext]
  refine (exits_text hmem u).bind fun text v hv => ?_
  have hpure : operatorText env n = pure text :=
    htext.trans ((env.settled_text op).eq_pure (congrArg Prod.fst hv))
  unfold applyOperator
  split
  · exact exits_fault rfl v
  · rename_i operator hoperator
    split
    · exact exits_pure v
    · exact exits_fault rfl v
    · rename_i hnone
      obtain ⟨rfl, hrem⟩ := remainder_of_apply hnone
      have hname : Operator.remainder.text = text := by
        simpa using List.find?_some hoperator
      subst hname
      refine exits_fail (.remainder hn ⟨hk, hpure, left, right, hleft, hright, ?_⟩) v
      exact ⟨free, s, t, u, a, b, ha, hb, hrem⟩

-- ================================================================== nodes

/-- Whether every way to evaluate a node exits well. -/
structure ExitsAt (env : Env φ) (free : Nat) (n : Node) : Prop where
  expr : Exits (Exit env) (expr env (enter env free) n)
  valueOf : Exits (Exit env) (valueOf env (enter env free) n)
  block : ∀ bindings, Exits (Exit env) (block env (enter env free) bindings n)
  statement : n.isNamed = true → Exits (Exit env) (statement env (enter env free) n)
  /-- For a declarator: its value. -/
  below : ∀ c ∈ n.children, Exits (Exit env) (Eval.valueOf env (enter env free) c)

/-- Whether calls do. -/
def ExitsCalls (env : Env φ) (free : Nat) : Prop :=
  ∀ name f arguments, Exits (Exit env) (enter env free name f arguments)

theorem exits_values {ns : List Node} (hns : ∀ n ∈ ns, ExitsAt env free n) :
    Exits (Exit env) (values env (enter env free) ns) := by
  induction ns with
  | nil =>
    rw [values]
    exact exits_pure
  | cons n rest ih =>
    rw [List.forall_mem_cons] at hns
    rw [values]
    exact hns.1.valueOf.bind fun _ => (ih hns.2).bind fun _ => exits_pure

theorem exits_statements {ns : List Node} (hnamed : ∀ n ∈ ns, n.isNamed = true)
    (hns : ∀ n ∈ ns, ExitsAt env free n) :
    Exits (Exit env) (statements env (enter env free) ns) := by
  induction ns with
  | nil =>
    rw [statements]
    exact exits_pure
  | cons n rest ih =>
    rw [List.forall_mem_cons] at hnamed hns
    rw [statements]
    refine (hns.1.statement hnamed.1).bind fun signal => ?_
    cases signal with
    | returned v => exact exits_pure
    | value v => exact ih hnamed.2 hns.2

theorem exits_declarators {ns : List Node} (hmem : ∀ n ∈ ns, n ∈ env.root.preorder)
    (hns : ∀ n ∈ ns, ExitsAt env free n) :
    Exits (Exit env) (declarators env (enter env free) ns) := by
  induction ns with
  | nil =>
    rw [declarators]
    exact exits_pure
  | cons n rest ih =>
    rw [List.forall_mem_cons] at hmem hns
    rw [declarators]
    refine (exits_expectKind _ _).bind fun _ => ?_
    split
    · exact exits_misshapen _ _
    · rename_i variable_ hv
      have hname := Node.mem_preorder_child hmem.1 (Node.mem_children_of_child? hv)
      refine (exits_text hname).bind fun _ => (exits_modifyScopes _).bind fun _ => ?_
      split
      · exact ih hmem.2 hns.2
      · rename_i inner hi
        refine (hns.1.below _ (Node.mem_children_of_child? hi)).bind fun _ => ?_
        exact (exits_modifyScopes _).bind fun _ => ih hmem.2 hns.2

theorem exits_dispatch (hcall : ExitsCalls env free) (name : String)
    (arguments : List (Value φ)) (t : Target φ) :
    Exits (Exit env) (dispatch env (enter env free) name arguments t) := by
  cases t with
  | function f => exact hcall name f arguments
  | foreign template => exact exits_launch _
  | program => exact exits_launch _

theorem exits_expr (hcall : ExitsCalls env free) (hn : n ∈ env.root.preorder)
    (hchildren : ∀ c ∈ n.children, ExitsAt env free c) :
    Exits (Exit env) (expr env (enter env free) n) := by
  have hchild {field : Field} {c : Node} (hc : n.child? field = some c) : ExitsAt env free c :=
    hchildren c (Node.mem_children_of_child? hc)
  have hmem {field : Field} {c : Node} (hc : n.child? field = some c) : c ∈ env.root.preorder :=
    Node.mem_preorder_child hn (Node.mem_children_of_child? hc)
  have harguments : Exits (Exit env) (values env (enter env free) (n.inRole .arguments)) :=
    exits_values fun c hc => hchildren c (Node.mem_children_of_inRole hc)
  rw [expr]
  refine fun s => ExitsFrom.located ?_ fun e he => he.locate _
  split
  · exact ((exits_literal hn).bind fun _ => exits_pure) s
  · exact ((exits_variableValue hn).bind fun _ => exits_pure) s
  · exact ((exits_lambda hn).bind fun _ => exits_pure) s
  · -- a binary expression
    rename_i hk
    split
    · exact exits_misshapen _ _ s
    · rename_i left hl
      refine ((hchild hl).valueOf s).bind fun a t ha => ?_
      split
      · exact exits_misshapen _ _ t
      · rename_i right hr
        refine ((hchild hr).valueOf t).bind fun b u hb => ?_
        have hoperator := exits_operator hn hk hl hr ha hb
        change ExitsFrom (Exit env) (operatorText env n >>= fun op =>
          applyOperator op a b >>= fun v => pure (Signal.value v)) u
        rw [← bind_assoc]
        exact hoperator.bind fun v w _ => exits_pure w
  · -- an attribute
    split
    · exact exits_misshapen _ _ s
    · rename_i parent hp
      refine ((hchild hp).valueOf.bind fun v => ?_) s
      split
      · exact exits_misshapen _ _
      · rename_i name hname
        refine (exits_text (hmem hname)).bind fun _ => ?_
        exact (exits_attributeOf _ _).bind fun _ => exits_pure
  · -- an array
    have hitems : Exits (Exit env) (values env (enter env free) n.named) :=
      exits_values fun c hc => hchildren c (Node.mem_children_of_named hc)
    exact (hitems.bind fun _ => exits_pure) s
  · -- a conditional
    split
    · exact exits_misshapen _ _ s
    · rename_i condition hc
      refine ((hchild hc).valueOf.bind fun v => ?_) s
      split
      · split
        · split
          · exact exits_misshapen _ _
          · rename_i consequence hq
            exact (hchild hq).block []
        · split
          · exact exits_pure
          · rename_i alternative ha
            split
            · exact (hchild ha).expr
            · exact (hchild ha).block []
      · exact exits_fault rfl
  · -- a call
    split
    · exact exits_misshapen _ _ s
    · rename_i callee hf
      split
      · refine ((exits_text (hmem hf)).bind fun name => exits_scopes.bind fun _ => ?_) s
        refine (exits_orNotCallable _).bind fun t => harguments.bind fun arguments => ?_
        exact (exits_dispatch hcall name arguments t).bind fun _ => exits_pure
      · refine ((hchild hf).valueOf.bind fun v => ?_) s
        refine (exits_orNotCallable _).bind fun t => harguments.bind fun arguments => ?_
        exact (exits_dispatch hcall _ arguments t).bind fun _ => exits_pure
  · exact exits_misshapen _ _ s

theorem exits_valueOf (hexpr : Exits (Exit env) (expr env (enter env free) n)) :
    Exits (Exit env) (valueOf env (enter env free) n) := by
  rw [valueOf]
  refine hexpr.bind fun signal => ?_
  cases signal with
  | value v => exact exits_pure
  | returned v => exact fun s => ((exits_fault rfl) s).located fun e he => he.locate _

theorem exits_block (hchildren : ∀ c ∈ n.children, ExitsAt env free c) (bindings : Frame φ) :
    Exits (Exit env) (block env (enter env free) bindings n) := by
  rw [block]
  split
  · refine (exits_statements (fun c hc => ?_) fun c hc => ?_).inScope bindings
    · exact (List.mem_filter.1 hc).2
    · exact hchildren c (Node.mem_children_of_named hc)
  · exact exits_misshapen _ _

theorem exits_statement (hn : n ∈ env.root.preorder) (hisNamed : n.isNamed = true)
    (hchildren : ∀ c ∈ n.children, ExitsAt env free c) :
    Exits (Exit env) (statement env (enter env free) n) := by
  have hchild {field : Field} {c : Node} (hc : n.child? field = some c) : ExitsAt env free c :=
    hchildren c (Node.mem_children_of_child? hc)
  rw [statement]
  refine fun s => ExitsFrom.located ?_ fun e he => he.locate _
  refine ((exits_within _ _).bind fun _ => ?_) s
  split
  · -- an expression on its own
    rename_i hk
    split
    · rename_i hnamed
      exact exits_fail (.bare hn ⟨hisNamed, hk⟩ hnamed)
    · rename_i inner rest hi
      have hinner : inner ∈ n.named := hi ▸ List.mem_cons_self
      exact (hchildren _ (Node.mem_children_of_named hinner)).expr
  · -- a declaration
    refine (exits_declarators (fun c hc => ?_) fun c hc => ?_).bind fun _ => exits_pure
    · exact Node.mem_preorder_child hn (Node.mem_children_of_named hc)
    · exact hchildren c (Node.mem_children_of_named hc)
  · -- an assignment
    split
    · exact exits_misshapen _ _
    · rename_i lhs hl
      refine exits_expectKind_bind fun m hm _ => ?_
      cases hm
      split
      · exact exits_misshapen _ _
      · rename_i rhs hr
        have hname := Node.mem_preorder_child hn (Node.mem_children_of_child? hl)
        refine (hchild hr).valueOf.bind fun _ => (exits_text hname).bind fun _ => ?_
        refine exits_scopes.bind fun _ => ?_
        split
        · exact exits_fault rfl
        · exact (exits_modifyScopes _).bind fun _ => exits_pure
  · -- a return
    split
    · exact exits_pure
    · rename_i inner hi
      exact (hchild hi).valueOf.bind fun _ => exits_pure
  · exact exits_misshapen _ _

/-- Every way to evaluate a node of the tree exits well, given that calls do. -/
theorem exits (hcall : ExitsCalls env free) (n : Node) (hn : n ∈ env.root.preorder) :
    ExitsAt env free n := by
  induction n using Node.children_induction with
  | step n ih =>
    have hchildren : ∀ c ∈ n.children, ExitsAt env free c :=
      fun c hc => ih c hc (Node.mem_preorder_child hn hc)
    have hexpr := exits_expr hcall hn hchildren
    exact {
      expr := hexpr
      valueOf := exits_valueOf hexpr
      block := fun bindings => exits_block hchildren bindings
      statement := fun hisNamed => exits_statement hn hisNamed hchildren
      below := fun c hc => (hchildren c hc).valueOf }

-- =================================================================== runs

/-- Calls exit well, however many more may become active in them. -/
theorem exits_enter (hbodies : OwnBodies env) (free : Nat) : ExitsCalls env free := by
  induction free with
  | zero =>
    intro name f arguments
    rw [enter]
    split
    · exact exits_fault rfl
    · exact (exits_expectKind _ _).bind fun _ => exits_fault rfl
  | succ free ih =>
    intro name f arguments
    rw [enter]
    split
    · exact exits_fault rfl
    · refine exits_expectKind_bind fun body hbody _ => (exits_within _ _).bind fun _ => ?_
      have hexits := exits ih body (hbodies f body hbody)
      refine ((hexits.block _).inCall name).bind fun signal => ?_
      cases signal <;> exact exits_pure

/-- The statements of a program exit well, and exhaust nothing. -/
theorem exits_topLevel (hbodies : OwnBodies env) (free : Nat) {ns : List Node}
    (hns : ∀ n ∈ ns, n ∈ env.root.named) :
    Exits (fun e => Exit env e ∧ e ≠ .exhausted) (topLevel env (enter env free) ns) := by
  induction ns with
  | nil => exact exits_pure
  | cons n rest ih =>
    rw [List.forall_mem_cons] at hns
    rw [topLevel]
    have hn := exits (exits_enter hbodies free) n (mem_preorder_of_named hns.1)
    have hstatement := hn.statement (List.mem_filter.1 hns.1).2
    refine (hstatement.blamed (.fault rfl)).bind fun signal => ?_
    cases signal with
    | returned v => exact exits_fail ⟨.fault rfl, by rintro ⟨⟩⟩
    | value v => exact ih hns.2

/-- Where there are no interface declarations, nothing else is taken for one. -/
theorem exits_interfaces {ns : List Node} (hns : ∀ n ∈ ns, n.kind ≠ .interface_) :
    Exits (fun e => Exit env e ∧ e ≠ .exhausted) (interfaces env ns) := by
  cases ns with
  | nil => exact exits_pure
  | cons n rest =>
    rw [interfaces, expectKind_of_ne (hns n List.mem_cons_self)]
    exact exits_fail ⟨.fault rfl, by rintro ⟨⟩⟩

omit [Callable φ] [DecidableEq φ] in
theorem isNamed_of_declarations {root n : Node} (h : n ∈ declarations root) :
    n.isNamed = true := by
  unfold declarations at h
  split at h
  · split at h
    · exact (List.mem_filter.1 h).2
    · cases h
  · cases h

/-- How a program without interface declarations may end that starts nothing. -/
theorem exits_program (hbodies : OwnBodies env)
    (hinterface : ∀ n ∈ env.root.preorder, ¬n.Is .interface_) :
    Exits (fun e => Exit env e ∧ e ≠ .exhausted) (program env) := by
  by_cases hk : env.root.kind = .sourceFile
  · rw [program_eq hk]
    refine (exits_interfaces fun n hn hni => ?_).bind fun _ =>
      exits_topLevel hbodies _ fun n hn => mem_named_of_mainStatements hn
    exact hinterface n (mem_preorder_of_declarations hn) ⟨isNamed_of_declarations hn, hni⟩
  · rw [program_misshapen hk]
    exact exits_fail ⟨.fault rfl, by rintro ⟨⟩⟩

end Eval

end SamScript
