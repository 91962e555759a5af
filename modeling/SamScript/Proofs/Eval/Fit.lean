/-
Trees of the shape that the evaluator asks for. `Fit` says what such a tree,
the way its functions are kept and a property of values have to do with each
other, and `Keeping` what a second way to keep functions has to do with the
first. Where they hold, the steps that evaluate no other node of the tree are
mirrored: texts, literals, variables, lambdas, and what is started outside.
-/
import SamScript.Proofs.Eval.Equations
import SamScript.Proofs.Eval.Mirror
import SamScript.Proofs.Tree.WellFormed

namespace SamScript

variable {φ ψ : Type}

open Run

/-- The same environment with functions kept in another way. -/
def Env.keeping (env : Env φ) (close : Node → List String → ψ) (body? : ψ → Option Node) : Env ψ :=
  { host := env.host
    config := env.config
    bounds := env.bounds
    file := env.file
    root := env.root
    source := env.source
    lines := env.lines
    close
    body? }

/-- Whether names are what the parameters of a lambda spell. -/
def Node.Binds (source : List UInt8) (n : Node) (parameters : List String) : Prop :=
  (n.inRole .parameters).map (fun p => Utf8.decode? (p.bytes source)) =
    parameters.map fun name => .ok name.toList

namespace Eval

/-- What a tree, the way its functions are kept and a property of values have
to do with each other. -/
structure Fit (env : Env φ) (q : Value φ → Prop) : Prop where
  shaped : env.root.All Node.Shaped
  readable : env.root.All (Node.Readable env.source)
  marked : env.root.All (Node.Marked env.source)
  plain : Value.Plain q
  /-- The functions of the tree's lambdas have the property. -/
  lambda : ∀ n ∈ env.root.preorder, n.Is .lambdaExpression → ∀ body, n.child? .body = some body →
    ∀ parameters, n.Binds env.source parameters → q (.function (env.close body parameters))
  /-- A function with the property has a block of the tree as its body. -/
  body : ∀ f, q (.function f) →
    ∃ body ∈ env.root.preorder, env.body? f = some body ∧ body.Is .statementBlock
  /-- The foreign functions of manifests have it. -/
  entry : ∀ path name command,
    Foreign.entry env.bounds env.host env.config path name = .ok command → q (.foreign command)

variable {env : Env φ} {q : Value φ → Prop} {e : φ → ψ} {close : Node → List String → ψ}
  {body? : ψ → Option Node} {n : Node}

theorem Fit.shape {kind : NodeKind} (h : Fit env q) (hn : n ∈ env.root.preorder)
    (hk : n.Is kind) : n.Shape kind := by
  have := h.shaped n hn hk.1
  rwa [hk.2] at this

-- ================================================================== texts

theorem mirrors_expectKind {kind : NodeKind} (hk : n.kind = kind) :
    Mirrors e q (· = n) id (expectKind kind (some n)) (expectKind kind (some n)) := by
  have hthis {χ : Type} : (expectKind kind (some n) : Run χ Node) = pure n := if_pos hk
  rw [hthis, hthis]
  exact mirrors_pure rfl

section

variable (h : Fit env q)

include h

/-- Every node of the tree can be read. -/
theorem mirrors_text (hn : n ∈ env.root.preorder) :
    Mirrors e q (fun text => Utf8.decode? (n.bytes env.source) = .ok text.toList) id
      (env.text n) ((env.keeping close body?).text n) := by
  obtain ⟨text, htext⟩ := h.readable n hn
  unfold Env.text
  rw [show (env.keeping close body?).source = env.source from rfl, htext]
  exact mirrors_pure (congrArg Except.ok String.toList_ofList.symm)

theorem mirrors_piece (hn : n ∈ env.root.preorder)
    (hk : n.Is .stringFragment ∨ n.Is .escapeSequence) :
    Mirrors e q (fun _ => True) id (piece env n) (piece (env.keeping close body?) n) := by
  unfold piece
  rcases hk with hk | hk
  · rw [hk.2]
    exact (mirrors_text h hn).bind fun _ _ => mirrors_pure trivial
  · rw [hk.2]
    exact (mirrors_text h hn).bind fun _ _ => mirrors_pure trivial

theorem mirrors_pieces {ns : List Node} (hns : ∀ n ∈ ns, n ∈ env.root.preorder)
    (hk : ∀ n ∈ ns, n.Is .stringFragment ∨ n.Is .escapeSequence) :
    Mirrors e q (fun _ => True) id (pieces env ns) (pieces (env.keeping close body?) ns) := by
  induction ns with
  | nil => exact mirrors_pure trivial
  | cons n rest ih =>
    rw [List.forall_mem_cons] at hns hk
    refine (mirrors_piece h hns.1 hk.1).bind fun _ _ => ?_
    exact (ih hns.2 hk.2).bind fun _ _ => mirrors_pure trivial

theorem mirrors_stringText (hn : n ∈ env.root.preorder) (hk : n.Is .string) :
    Mirrors e q (fun _ => True) id (stringText env n)
      (stringText (env.keeping close body?) n) := by
  refine (mirrors_expectKind hk.2).bind fun m hm => ?_
  subst hm
  have hpieces := h.shape hn hk
  refine (mirrors_pieces h (fun c hc => ?_) hpieces).bind fun _ _ => mirrors_pure trivial
  exact Node.mem_preorder_child hn (Node.mem_children_of_named hc)

/-- The operator of a binary expression is one of the operators. -/
theorem mirrors_operatorText (hn : n ∈ env.root.preorder) (hop : n.HasOperator) :
    Mirrors e q (fun text => (Operator.ofText? text).isSome) id (operatorText env n)
      (operatorText (env.keeping close body?) n) := by
  obtain ⟨op, hchild, hmark, hknown⟩ := hop
  have hmem := Node.mem_preorder_child hn (List.mem_of_getElem? hchild)
  unfold operatorText
  rw [hchild]
  refine (mirrors_text h hmem).mono fun text htext => ?_
  rw [h.marked op hmem hmark, Utf8.decode?_encode] at htext
  rwa [← String.toList_inj.1 (Except.ok.inj htext)]

theorem mirrors_parameterNames {ns : List Node} (hns : ∀ n ∈ ns, n ∈ env.root.preorder)
    (hk : ∀ n ∈ ns, n.Is .identifier) :
    Mirrors e q (fun names => ns.map (fun p => Utf8.decode? (p.bytes env.source)) =
        names.map fun name => .ok name.toList) id
      (parameterNames env ns) (parameterNames (env.keeping close body?) ns) := by
  induction ns with
  | nil => exact mirrors_pure rfl
  | cons n rest ih =>
    rw [List.forall_mem_cons] at hns hk
    refine (mirrors_expectKind hk.1.2).bind fun m hm => ?_
    subst hm
    refine (mirrors_text h hns.1).bind fun name hname => ?_
    refine (ih hns.2 hk.2).bind fun names hnames => mirrors_pure ?_
    rw [List.map_cons, List.map_cons, hname, hnames]

end

-- ================================================================= values

theorem mirrors_number (h : Value.Plain q) (text : String) :
    Mirrors e q (·.All q) (Value.map e) (number text) (number text) := by
  unfold number
  rw [Value.numberLiteral_map (e := e) text.toList]
  rcases hv : (Literal.number? text.toList : Except Decimal.Fault (Option (Value φ))) with
    fault | _ | v
  · exact mirrors_fail rfl
  · exact mirrors_fault rfl
  · exact mirrors_pure (h.all_number? hv)

theorem attributeOf_map (v : Value φ) (name : String) :
    attributeOf (v.map e) name = (attributeOf v name).map (Value.map e) := by
  cases v with
  | object fields =>
    have hmap : (Value.object fields).map e = .object (Frame.map e fields) := rfl
    rw [hmap]
    unfold attributeOf
    dsimp only
    rw [Frame.get?_map]
    cases Bindings.get? name fields <;> rfl
  | _ => rfl

theorem mirrors_attributeOf {v : Value φ} (hv : v.All q) (name : String) :
    Mirrors e q (·.All q) (Value.map e) (orFault (attributeOf v name))
      (orFault (attributeOf (v.map e) name)) := by
  unfold orFault
  rw [attributeOf_map]
  refine mirrors_lift ?_ ?_
  · unfold attributeOf
    split
    · rename_i fields
      split
      · rename_i w hw
        exact Frame.All.get? (Value.all_object.1 hv).2 hw
      · exact rfl
    · exact rfl
  · cases attributeOf v name <;> rfl

theorem mirrors_applyOperator [DecidableEq φ] [DecidableEq ψ] (h : Value.Plain q)
    (hseparates : Value.Separates e q) {text : String} {a b : Value φ} (ha : a.All q)
    (hb : b.All q) (htext : (Operator.ofText? text).isSome) :
    Mirrors e q (·.All q) (Value.map e) (applyOperator text a b)
      (applyOperator text (a.map e) (b.map e)) := by
  obtain ⟨op, hop⟩ := Option.isSome_iff_exists.1 htext
  unfold applyOperator
  rw [hop]
  dsimp only
  rw [Value.apply_map hseparates ha hb]
  rcases hv : op.apply a b with fault | v
  · cases fault with
    | incomparable => exact mirrors_fault rfl
    | noRemainder => exact mirrors_fail rfl
  · exact mirrors_pure (h.all_apply hv)

theorem mirrors_literal (h : Fit env q) (hn : n ∈ env.root.preorder) (hk : n.Is .literal) :
    Mirrors e q (·.All q) (Value.map e) (literal env n)
      (literal (env.keeping close body?) n) := by
  obtain ⟨inner, rest, hnamed, hinner⟩ := h.shape hn hk
  have hmem : inner ∈ env.root.preorder :=
    Node.mem_preorder_child hn (Node.mem_children_of_named (hnamed ▸ List.mem_cons_self))
  unfold literal
  rw [hnamed]
  rcases hinner with hi | hi
  · simp only [hi.2]
    exact (mirrors_text h hmem).bind fun text _ => mirrors_number h.plain text
  · simp only [hi.2]
    exact (mirrors_stringText h hmem hi).bind fun s _ => mirrors_pure (h.plain.all_string s)

theorem mirrors_variableValue (h : Fit env q) (hn : n ∈ env.root.preorder) :
    Mirrors e q (·.All q) (Value.map e) (variableValue env n)
      (variableValue (env.keeping close body?) n) := by
  refine (mirrors_text h hn).bind fun name _ => mirrors_scopes.bind fun scopes hs => ?_
  rw [Scopes.resolve?_map, id_eq]
  cases hv : scopes.resolve? name with
  | none => exact mirrors_fault rfl
  | some v => exact mirrors_pure (hs.resolve? hv)

theorem mirrors_declare (name : String) {v : Value φ} (hv : v.All q) :
    Mirrors e q (fun _ => True) id (modifyScopes fun s => s.declare name v)
      (modifyScopes fun s => s.declare name (v.map e)) :=
  mirrors_modifyScopes (fun _ hs => hs.declare name hv) fun _ => Scopes.map_declare.symm

/-- Whether operands nest too deep. -/
theorem mirrors_depth (n : Node) :
    Mirrors e q (fun _ => True) id (Run.within env.bounds.operands fun _ => n.operandDepth)
      (Run.within (env.keeping close body?).bounds.operands fun _ => n.operandDepth) :=
  mirrors_within _ fun _ => rfl

-- ================================================================= targets

/-- A name that is bound to nothing to call means what the global frame has. -/
theorem target_shadowed (bound outermost : Option (Value φ)) :
    (match outermost.map (Value.map e) with
      | some (.foreign template) => Except.ok (Target.foreign template)
      | _ =>
        match bound.map (Value.map e) with
        | none => .ok .program
        | some v => .error v.kind) =
    (match outermost with
      | some (.foreign template) => Except.ok (Target.foreign template)
      | _ =>
        match bound with
        | none => .ok .program
        | some v => .error v.kind).map (Target.map e) := by
  rcases outermost with _ | v
  · cases bound with
    | none => rfl
    | some w => exact congrArg Except.error Value.kind_map
  · cases v with
    | foreign template => rfl
    | _ =>
      cases bound with
      | none => rfl
      | some w => exact congrArg Except.error Value.kind_map

theorem target_map (scopes : Scopes φ) (name : String) :
    target (scopes.map e) name = (target scopes name).map (Target.map e) := by
  unfold target
  rw [Scopes.resolve?_map, Scopes.globals_map, Frame.get?_map]
  cases scopes.resolve? name with
  | none => exact target_shadowed none _
  | some v =>
    cases v with
    | function | foreign => rfl
    | _ => exact target_shadowed (some _) _

theorem valueTarget_map (v : Value φ) :
    valueTarget (v.map e) = (valueTarget v).map (Target.map e) := by
  cases v <;> rfl

theorem all_target {scopes : Scopes φ} {name : String} {t : Target φ} (hs : scopes.All q)
    (ht : target scopes name = .ok t) : t.All q := by
  unfold target at ht
  split at ht
  · rename_i f hf
    cases ht
    exact Value.all_function.1 (hs.resolve? hf)
  · rename_i template hf
    cases ht
    exact Value.all_foreign.1 (hs.resolve? hf)
  · split at ht
    · rename_i template hf
      cases ht
      exact Value.all_foreign.1 ((Scopes.all_iff.1 hs).2.get? hf)
    · split at ht
      · cases ht
        trivial
      · cases ht

theorem all_valueTarget {v : Value φ} {t : Target φ} (hv : v.All q)
    (ht : valueTarget v = .ok t) : t.All q := by
  unfold valueTarget at ht
  split at ht
  · cases ht
    exact Value.all_function.1 hv
  · cases ht
    exact Value.all_foreign.1 hv
  · cases ht

theorem mirrors_orNotCallable {t : Except Kind (Target φ)}
    (h : ∀ target, t = .ok target → target.All q) :
    Mirrors e q (·.All q) (Target.map e) (orNotCallable t)
      (orNotCallable (t.map (Target.map e))) := by
  rcases t with kind | target
  · exact mirrors_lift rfl rfl
  · exact mirrors_lift (h target rfl) rfl

-- ============================================================== interfaces

/-- Whatever a manifest lacks, it is no defensive failure. -/
theorem entry_error {bounds : Bounds} {host : Host} {config : Config} {path name : String}
    {f : Failure} (h : Foreign.entry bounds host config path name = .error f) :
    f.isDefensive = false := by
  unfold Foreign.entry at h
  dsimp only at h
  split at h
  · cases h
    rfl
  · cases h
    rfl
  · split at h
    · cases h
      rfl
    · split at h
      · cases h
        rfl
      · cases h
        rfl
      · cases h
        rfl
      · split at h
        · cases h
        · cases h
          rfl

theorem mirrors_register (h : Fit env q) (path name : String) {scopes : Scopes φ}
    (hs : scopes.All q) :
    Mirrors e q (fun p => p.2.All q) (fun p => (p.1.map e, p.2.map e))
      (Run.lift (Foreign.register env.bounds env.host env.config path name scopes))
      (Run.lift (Foreign.register env.bounds env.host env.config path name (scopes.map e))) := by
  unfold Foreign.register
  rcases hc : Foreign.entry env.bounds env.host env.config path name with f | command
  · exact mirrors_lift (entry_error hc) rfl
  · refine mirrors_lift ?_ ?_
    · exact hs.declareGlobal name (Value.all_foreign.2 (h.entry path name command hc))
    · refine congrArg (fun s => Except.ok (Value.foreign command, s)) ?_
      exact (Scopes.map_declareGlobal (v := .foreign command)).symm

/-- Interface declarations are mirrored. -/
theorem mirrors_interfaces (h : Fit env q) {ns : List Node}
    (hns : ∀ n ∈ ns, n ∈ env.root.preorder) (hk : ∀ n ∈ ns, n.Is .interface_) :
    Mirrors e q (fun _ => True) id (interfaces env ns)
      (interfaces (env.keeping close body?) ns) := by
  induction ns with
  | nil => exact mirrors_pure trivial
  | cons n rest ih =>
    rw [List.forall_mem_cons] at hns hk
    obtain ⟨⟨path, hpath, hstring⟩, name, hname, hidentifier⟩ := h.shape hns.1 hk.1
    have hmem {field : Field} {c : Node} (hc : n.child? field = some c) : c ∈ env.root.preorder :=
      Node.mem_preorder_child hns.1 (Node.mem_children_of_child? hc)
    rw [interfaces_cons hk.1.2 hpath hname hidentifier.2,
      interfaces_cons hk.1.2 hpath hname hidentifier.2]
    refine Mirrors.bind (?_ : Mirrors e q (fun _ => True) id _ _) fun _ _ => ih hns.2 hk.2
    refine Mirrors.located ?_ _
    refine (mirrors_stringText h (hmem hpath) hstring).bind fun path _ => ?_
    refine (mirrors_text h (hmem hname)).bind fun name _ => ?_
    refine mirrors_scopes.bind fun scopes hs => ?_
    refine (mirrors_register h path name hs).bind fun p hp => ?_
    exact mirrors_modifyScopes (fun _ _ => hp) fun _ => rfl

-- =============================================================== functions

variable [Callable φ] [Callable ψ]

/-- What a second way to keep functions has to do with the first one. -/
structure Keeping (env : Env φ) (q : Value φ → Prop) (e : φ → ψ)
    (close : Node → List String → ψ) (body? : ψ → Option Node) : Prop where
  parameters : ∀ f, Callable.parameters (e f) = Callable.parameters f
  separates : Value.Separates e q
  closed : ∀ n ∈ env.root.preorder, n.Is .lambdaExpression → ∀ body, n.child? .body = some body →
    ∀ parameters, close body parameters = e (env.close body parameters)
  found : ∀ f, q (.function f) → body? (e f) = env.body? f

/-- Functions can be kept as they are. -/
theorem Keeping.refl (env : Env φ) (q : Value φ → Prop) :
    Keeping env q id env.close env.body? where
  parameters _ := rfl
  separates _ _ _ _ h := h
  closed _ _ _ _ _ _ := rfl
  found _ _ := rfl

theorem mirrors_lambda (h : Fit env q) (k : Keeping env q e close body?)
    (hn : n ∈ env.root.preorder) (hk : n.Is .lambdaExpression) :
    Mirrors e q (·.All q) (Value.map e) (lambda env n)
      (lambda (env.keeping close body?) n) := by
  obtain ⟨⟨body, hbody, hblock⟩, hparameters⟩ := h.shape hn hk
  have hmem : ∀ c ∈ n.inRole .parameters, c ∈ env.root.preorder := fun c hc =>
    Node.mem_preorder_child hn (Node.mem_children_of_inRole hc)
  unfold lambda
  rw [hbody]
  refine (mirrors_expectKind hblock.2).bind fun m hm => ?_
  subst hm
  refine (mirrors_parameterNames h hmem hparameters).bind fun parameters hbinds => ?_
  show Mirrors e q _ _ _ (pure (Value.function (close m parameters)))
  rw [k.closed n hn hk m hbody]
  exact mirrors_pure (Value.all_function.2 (h.lambda n hn hk m hbody parameters hbinds))

/-- What is started outside is the same. -/
theorem mirrors_launch (h : Fit env q) (k : Keeping env q e close body?)
    (l : Foreign.Launch φ) :
    Mirrors e q (·.All q) (Value.map e) (Run.launch env l)
      (Run.launch (env.keeping close body?) (l.map e)) := by
  refine fun s hs => ⟨?_, hs, Foreign.ended_answer h.plain _ _ _ _⟩
  have hpast : (s.map e).started.map (fun started => started.launch.request env.config) =
      s.started.map fun started => started.launch.request env.config := by
    show (s.started.map (Started.map e)).map _ = _
    rw [List.map_map]
    exact List.map_congr_left fun started _ =>
      Foreign.Launch.request_map k.parameters env.config started.launch
  unfold Run.launch
  dsimp only [Env.keeping]
  rw [hpast, Foreign.Launch.request_map k.parameters, Foreign.answer_map k.parameters]
  cases env.host.start _ _ <;> rfl

/-- Whether calls of functions that have a property are mirrored. -/
def MirrorsCalls (q : Value φ → Prop) (e : φ → ψ) (call : Caller φ) (call' : Caller ψ) : Prop :=
  ∀ name f arguments, q (.function f) → (∀ v ∈ arguments, v.All q) →
    Mirrors e q (·.All q) (Value.map e) (call name f arguments)
      (call' name (e f) (arguments.map (Value.map e)))

variable {call : Caller φ} {call' : Caller ψ}

theorem mirrors_dispatch (h : Fit env q) (k : Keeping env q e close body?)
    (hcall : MirrorsCalls q e call call') (name : String) {arguments : List (Value φ)}
    (harguments : ∀ v ∈ arguments, v.All q) {t : Target φ} (ht : t.All q) :
    Mirrors e q (·.All q) (Value.map e) (dispatch env call name arguments t)
      (dispatch (env.keeping close body?) call' name (arguments.map (Value.map e))
        (t.map e)) := by
  cases t with
  | function f => exact hcall name f arguments ht harguments
  | foreign template => exact mirrors_launch h k (.template template arguments)
  | program => exact mirrors_launch h k (.program name arguments)

end Eval

end SamScript
