/-
Invariants of runs. A property `q` of values and a property `P` of what was
started are an invariant (`Invariant`) if literals, operators, lambdas,
answers from outside and manifests bring only values with the first, and
calls start only what has the second. Then every way to evaluate a node, in
any tree and from any state in which they hold, keeps them, however it ends,
and what it comes to has the first: by induction on the node, and for calls by
induction on the calls that are left. A name that a call found unbound is
still unbound when its arguments have been evaluated, since evaluation of an
expression leaves the names of all frames.
-/
import SamScript.Proofs.Eval.Discipline
import SamScript.Proofs.Eval.Fit

namespace SamScript

variable {φ α β : Type}

-- ================================================================== states

/-- Whether something holds of all values in scope and of everything that was
started. -/
structure RunState.Sound (q : Value φ → Prop) (P : Started φ → Prop) (s : RunState φ) : Prop where
  scopes : s.scopes.All q
  started : ∀ x ∈ s.started, P x

/-- Before a run there are no values, and nothing was started. -/
theorem RunState.Sound.initial {q : Value φ → Prop} {P : Started φ → Prop} :
    ({} : RunState φ).Sound q P where
  scopes := List.forall_mem_singleton.2 fun _ hp => nomatch hp
  started := List.forall_mem_nil P

namespace Run

/-- From a state, a step keeps what holds of values in scope and of what was
started, however it ends, and comes to something of which `post` holds. -/
def UpholdsFrom (q : Value φ → Prop) (P : Started φ → Prop) (post : α → Prop) (x : Run φ α)
    (s : RunState φ) : Prop :=
  (x s).2.Sound q P ∧ ∀ a, (x s).1 = .ok a → post a

/-- A step that does so from every state of which it holds. -/
def Upholds (q : Value φ → Prop) (P : Started φ → Prop) (post : α → Prop) (x : Run φ α) : Prop :=
  ∀ s, s.Sound q P → UpholdsFrom q P post x s

variable {q : Value φ → Prop} {P : Started φ → Prop} {post : α → Prop} {after : β → Prop}
  {x : Run φ α} {s : RunState φ}

-- =================================================================== steps

theorem upholds_pure {a : α} (h : post a) : Upholds q P post (pure a) :=
  fun _ hs => ⟨hs, fun _ he => Except.ok.inj he ▸ h⟩

theorem upholds_fail (f : Failure) : Upholds q P post (fail f) :=
  fun _ hs => ⟨hs, fun _ he => nomatch he⟩

theorem upholds_fault (f : EvalFault) : Upholds q P post (fault f) :=
  upholds_fail _

theorem upholds_lift {r : Except Failure α} (h : ∀ a, r = .ok a → post a) :
    Upholds q P post (lift r) :=
  fun _ hs => ⟨hs, h⟩

theorem Still.upholds (hx : Still x) : Upholds q P (fun _ => True) x :=
  fun s hs => ⟨(hx s).symm ▸ hs, fun _ _ => trivial⟩

theorem Settled.upholds (hx : Settled x) : Upholds q P (fun a => x = pure a) x := by
  refine fun s hs => ⟨?_, fun a ha => hx.eq_pure ha⟩
  rcases hx with ⟨a, rfl⟩ | ⟨f, rfl⟩ <;> exact hs

theorem upholds_scopes : Upholds q P (·.All q) (scopes : Run φ (Scopes φ)) :=
  fun _ hs => ⟨hs, fun _ he => Except.ok.inj he ▸ hs.scopes⟩

theorem upholds_modifyScopes {f : Scopes φ → Scopes φ} (h : ∀ s, s.All q → (f s).All q) :
    Upholds q P (fun _ => True) (modifyScopes f) :=
  fun s hs => ⟨⟨h s.scopes hs.scopes, hs.started⟩, fun _ _ => trivial⟩

theorem Upholds.mono {post' : α → Prop} (hx : Upholds q P post x) (h : ∀ a, post a → post' a) :
    Upholds q P post' x :=
  fun s hs => ⟨(hx s hs).1, fun a ha => h a ((hx s hs).2 a ha)⟩

theorem UpholdsFrom.bind {f : α → Run φ β} (hx : UpholdsFrom q P post x s)
    (hf : ∀ a t, x s = (.ok a, t) → t.Sound q P → post a → UpholdsFrom q P after (f a) t) :
    UpholdsFrom q P after (x >>= f) s := by
  obtain ⟨hkept, hpost⟩ := hx
  unfold UpholdsFrom
  rw [bind_apply]
  rcases hr : x s with ⟨e | a, t⟩
  · rw [hr] at hkept
    exact ⟨hkept, fun _ he => nomatch he⟩
  · rw [hr] at hkept hpost
    exact hf a t hr hkept (hpost a rfl)

theorem Upholds.bind {f : α → Run φ β} (hx : Upholds q P post x)
    (hf : ∀ a, post a → Upholds q P after (f a)) : Upholds q P after (x >>= f) :=
  fun s hs => (hx s hs).bind fun a t _ ht ha => hf a ha t ht

/-- A step that only looks, and then more. -/
theorem upholds_look {f : α → Run φ β} (hx : Still x) (hf : ∀ a, Upholds q P after (f a)) :
    Upholds q P after (x >>= f) :=
  hx.upholds.bind fun a _ => hf a

/-- A node of a kind, and then more. -/
theorem upholds_expectKind {kind : NodeKind} {o : Option Node} {f : Node → Run φ β}
    (h : ∀ n, o = some n → n.kind = kind → Upholds q P after (f n)) :
    Upholds q P after (expectKind kind o >>= f) := by
  cases o with
  | none => exact fun s hs => ⟨hs, fun _ he => nomatch he⟩
  | some n =>
    by_cases hk : n.kind = kind
    · rw [expectKind_of_eq hk, pure_bind]
      exact h n rfl hk
    · rw [expectKind_of_ne hk]
      exact fun s hs => ⟨hs, fun _ he => nomatch he⟩

theorem Upholds.located (hx : Upholds q P post x) (place : Place) :
    Upholds q P post (located place x) := by
  intro s hs
  obtain ⟨hkept, hpost⟩ := hx s hs
  unfold UpholdsFrom Run.located
  generalize x s = r at hkept hpost
  rcases r with ⟨e | a, t⟩
  · exact ⟨hkept, fun _ he => nomatch he⟩
  · exact ⟨hkept, hpost⟩

theorem Upholds.blamed (hx : Upholds q P post x) (place : Place) :
    Upholds q P post (Eval.blamed place x) := by
  intro s hs
  obtain ⟨hkept, hpost⟩ := hx s hs
  unfold UpholdsFrom Eval.blamed
  generalize x s = r at hkept hpost
  rcases r with ⟨e | a, t⟩
  · cases e <;> exact ⟨hkept, fun _ he => nomatch he⟩
  · exact ⟨hkept, hpost⟩

theorem Upholds.inScope (hx : Upholds q P post x) {frame : Frame φ} (hframe : Frame.All q frame) :
    Upholds q P post (inScope frame x) := by
  intro s hs
  obtain ⟨hkept, hpost⟩ :=
    hx { s with scopes := s.scopes.push frame } ⟨hs.scopes.push hframe, hs.started⟩
  exact ⟨⟨hkept.scopes.cutTo _, hkept.started⟩, hpost⟩

theorem Upholds.inCall (hx : Upholds q P post x) (name : String) :
    Upholds q P post (inCall name x) := by
  intro s hs
  obtain ⟨hkept, hpost⟩ := hx { s with calls := name :: s.calls } ⟨hs.scopes, hs.started⟩
  exact ⟨⟨hkept.scopes, hkept.started⟩, hpost⟩

end Run

-- ============================================================== invariants

/-- A name that nothing is bound to is the name of no variable of any frame. -/
theorem Scopes.lookup?_eq_none_iff {name : String} {fs : List (Frame φ)} :
    lookup? name fs = none ↔ ∀ names ∈ fs.map Bindings.names, name ∉ names := by
  induction fs with
  | nil => simp [lookup?]
  | cons frame rest ih =>
    rw [lookup?, List.map_cons, List.forall_mem_cons, ← ih, ← Bindings.get?_eq_none_iff]
    cases frame.get? name <;> simp

theorem Scopes.resolve?_eq_none_iff {name : String} {s : Scopes φ} :
    s.resolve? name = none ↔ ∀ names ∈ s.stack.map Bindings.names, name ∉ names := by
  rw [stack, List.map_append, List.forall_mem_append, ← lookup?_eq_none_iff, List.map_singleton,
    List.forall_mem_singleton, ← Bindings.get?_eq_none_iff, resolve?]
  cases lookup? name s.inner <;> simp

namespace Eval

/-- Only a name that nothing is bound to is the name of a program. -/
theorem unbound_of_target {scopes : Scopes φ} {name : String}
    (h : target scopes name = .ok .program) : scopes.resolve? name = none := by
  unfold target at h
  split at h
  · cases h
  · cases h
  · split at h
    · cases h
    · split at h
      · assumption
      · cases h

variable [Callable φ] [DecidableEq φ]

/-- What a property of values and a property of what is started have to do with
what evaluation brings about. -/
structure Invariant (env : Env φ) (q : Value φ → Prop) (P : Started φ → Prop) : Prop where
  body : ∀ f b, env.body? f = some b → b ∈ env.root.preorder
  undefined : Value.undefined.All q
  string : ∀ s, (Value.string s).All q
  number : ∀ {text v}, Literal.number? text = .ok (some v) → v.All q
  array : ∀ {vs}, (∀ v ∈ vs, v.All q) → (Value.array vs).All q
  apply : ∀ {op : Operator} {a b v : Value φ}, a.All q → b.All q → op.apply a b = .ok v → v.All q
  answer : ∀ {l result v}, Foreign.answer env.bounds env.config l result = .ok v → v.All q
  lambda : ∀ n ∈ env.root.preorder, n.kind = .lambdaExpression →
    ∀ b, n.child? .body = some b → b.kind = .statementBlock →
    ∀ parameters, parameterNames env (n.inRole .parameters) = pure parameters →
      q (.function (env.close b parameters))
  interface_ : ∀ n ∈ env.root.preorder, n.kind = .interface_ →
    ∀ a, n.child? .path = some a → ∀ b, n.child? .module_ = some b → b.kind = .identifier →
    ∀ path, stringText env a = pure path → ∀ name, env.text b = pure name →
    ∀ command, Foreign.entry env.bounds env.host env.config path name = .ok command →
      q (.foreign command)
  template : ∀ {text arguments scopes}, q (.foreign text) → (∀ v ∈ arguments, v.All q) →
    scopes.All q → P ⟨.template text arguments, scopes⟩
  program : ∀ n ∈ env.root.preorder, n.kind = .callExpression →
    ∀ c, n.child? .function = some c → c.kind = .identifier → ∀ name, env.text c = pure name →
    ∀ free s arguments t,
      values env (enter env free) (n.inRole .arguments) s = (.ok arguments, t) →
      t.scopes.resolve? name = none → (∀ v ∈ arguments, v.All q) → t.scopes.All q →
      P ⟨.program name arguments, t.scopes⟩

variable {env : Env φ} {q : Value φ → Prop} {P : Started φ → Prop} {n : Node} {free : Nat}

open Run

-- ================================================================== leaves

section

variable (h : Invariant env q P)

include h

theorem upholds_number (text : String) : Upholds q P (·.All q) (number text : Run φ (Value φ)) := by
  unfold number
  split
  · exact upholds_fail _
  · exact upholds_fault _
  · rename_i v hv
    exact upholds_pure (h.number hv)

theorem upholds_literal (n : Node) : Upholds q P (·.All q) (literal env n) := by
  unfold literal
  split
  · exact upholds_fault _
  · split
    · exact upholds_look (env.still_text _) fun text => upholds_number h text
    · exact upholds_look (still_stringText _ _) fun s => upholds_pure (h.string s)
    · exact upholds_fault _

omit h [Callable φ] [DecidableEq φ] in
theorem upholds_variableValue (n : Node) : Upholds q P (·.All q) (variableValue env n) := by
  refine upholds_look (env.still_text _) fun name => upholds_scopes.bind fun scopes hs => ?_
  split
  · rename_i v hv
    exact upholds_pure (hs.resolve? hv)
  · exact upholds_fault _

theorem upholds_lambda (hn : n ∈ env.root.preorder) (hk : n.kind = .lambdaExpression) :
    Upholds q P (·.All q) (lambda env n) := by
  unfold lambda
  split
  · exact upholds_fault _
  · rename_i b hb
    refine upholds_expectKind fun m hm hblock => ?_
    cases hm
    refine (settled_parameterNames _ _).upholds.bind fun parameters hp => upholds_pure ?_
    exact Value.all_function.2 (h.lambda n hn hk b hb hblock parameters hp)

theorem upholds_applyOperator (text : String) {a b : Value φ} (ha : a.All q) (hb : b.All q) :
    Upholds q P (·.All q) (applyOperator text a b) := by
  unfold applyOperator
  split
  · exact upholds_fault _
  · split
    · rename_i v hv
      exact upholds_pure (h.apply ha hb hv)
    · exact upholds_fault _
    · exact upholds_fail _

omit h [Callable φ] [DecidableEq φ] in
theorem upholds_attributeOf {v : Value φ} (hv : v.All q) (name : String) :
    Upholds q P (·.All q) (orFault (attributeOf v name)) := by
  refine upholds_lift fun w hw => ?_
  unfold attributeOf at hw
  split at hw
  · split at hw
    · rename_i u hu
      cases hw
      exact Frame.All.get? (Value.all_object.1 hv).2 hu
    · cases hw
  · cases hw

omit h [Callable φ] [DecidableEq φ] in
theorem upholds_orNotCallable {t : Except Kind (Target φ)}
    (ht : ∀ target, t = .ok target → target.All q) :
    Upholds q P (·.All q) (orNotCallable t) := by
  refine upholds_lift fun target he => ht target ?_
  cases t with
  | error kind => cases he
  | ok t =>
    cases he
    rfl

/-- Starting something of which the property holds. -/
theorem upholds_launch {l : Foreign.Launch φ} {s : RunState φ} (hs : s.Sound q P)
    (hl : P ⟨l, s.scopes⟩) : UpholdsFrom q P (·.All q) (launch env l) s := by
  refine ⟨⟨hs.scopes, ?_⟩, fun v hv => h.answer hv⟩
  unfold launch
  dsimp only
  split
  · exact List.forall_mem_cons.2 ⟨hl, hs.started⟩
  · exact hs.started

end

-- ================================================================== nodes

/-- Whether every way to evaluate a node upholds the properties. -/
structure UpholdsAt (q : Value φ → Prop) (P : Started φ → Prop) (env : Env φ) (free : Nat)
    (n : Node) : Prop where
  expr : Upholds q P (Signal.All q) (expr env (enter env free) n)
  valueOf : Upholds q P (·.All q) (valueOf env (enter env free) n)
  block : ∀ bindings, Frame.All q bindings →
    Upholds q P (Signal.All q) (block env (enter env free) bindings n)
  statement : Upholds q P (Signal.All q) (statement env (enter env free) n)
  /-- For a declarator: its value. -/
  below : ∀ c ∈ n.children, Upholds q P (·.All q) (Eval.valueOf env (enter env free) c)

/-- Whether calls uphold the properties. -/
def UpholdsCalls (q : Value φ → Prop) (P : Started φ → Prop) (env : Env φ) (free : Nat) : Prop :=
  ∀ name f arguments, q (.function f) → (∀ v ∈ arguments, v.All q) →
    Upholds q P (·.All q) (enter env free name f arguments)

-- ------------------------------------------------------------------ lists

theorem upholds_values {ns : List Node} (hns : ∀ n ∈ ns, UpholdsAt q P env free n) :
    Upholds q P (fun vs => ∀ v ∈ vs, v.All q) (values env (enter env free) ns) := by
  induction ns with
  | nil =>
    rw [values]
    exact upholds_pure fun v hv => absurd hv List.not_mem_nil
  | cons n rest ih =>
    rw [List.forall_mem_cons] at hns
    rw [values]
    refine hns.1.valueOf.bind fun v hv => (ih hns.2).bind fun vs hvs => ?_
    exact upholds_pure (List.forall_mem_cons.2 ⟨hv, hvs⟩)

section

variable (h : Invariant env q P)

include h

theorem upholds_statements {ns : List Node} (hns : ∀ n ∈ ns, UpholdsAt q P env free n) :
    Upholds q P (Signal.All q) (statements env (enter env free) ns) := by
  induction ns with
  | nil =>
    rw [statements]
    exact upholds_pure h.undefined
  | cons n rest ih =>
    rw [List.forall_mem_cons] at hns
    rw [statements]
    refine hns.1.statement.bind fun signal hsignal => ?_
    cases signal with
    | returned v => exact upholds_pure hsignal
    | value v => exact ih hns.2

omit h [Callable φ] [DecidableEq φ] in
theorem upholds_declare (name : String) {v : Value φ} (hv : v.All q) :
    Upholds q P (fun _ => True) (modifyScopes fun s => s.declare name v) :=
  upholds_modifyScopes fun _ hs => hs.declare name hv

theorem upholds_declarators {ns : List Node} (hns : ∀ n ∈ ns, UpholdsAt q P env free n) :
    Upholds q P (fun _ => True) (declarators env (enter env free) ns) := by
  induction ns with
  | nil =>
    rw [declarators]
    exact upholds_pure trivial
  | cons n rest ih =>
    rw [List.forall_mem_cons] at hns
    rw [declarators]
    refine upholds_look (still_expectKind _ _) fun _ => ?_
    split
    · exact upholds_fault _
    · refine upholds_look (env.still_text _) fun name => ?_
      refine (upholds_declare name h.undefined).bind fun _ _ => ?_
      split
      · exact ih hns.2
      · rename_i inner hi
        refine (hns.1.below _ (Node.mem_children_of_child? hi)).bind fun v hv => ?_
        exact (upholds_declare name hv).bind fun _ _ => ih hns.2

-- ------------------------------------------------------------------ calls

/-- What was found for a call is run with its arguments. -/
theorem upholds_dispatch (hcall : UpholdsCalls q P env free) (name : String)
    {arguments : List (Value φ)} (harguments : ∀ v ∈ arguments, v.All q) {t : Target φ}
    (ht : t.All q) {s : RunState φ} (hs : s.Sound q P)
    (hprogram : t = .program → P ⟨.program name arguments, s.scopes⟩) :
    UpholdsFrom q P (·.All q) (dispatch env (enter env free) name arguments t) s := by
  cases t with
  | function f => exact hcall name f arguments ht harguments s hs
  | foreign text => exact upholds_launch h hs (h.template ht harguments hs.scopes)
  | program => exact upholds_launch h hs (hprogram rfl)

/-- A call of a name. The scopes that the name was looked up in and those that
a program is started in bind the same names: between them are the arguments,
and evaluating them leaves the names of all frames. -/
theorem upholds_call_name (hcall : UpholdsCalls q P env free) (hn : n ∈ env.root.preorder)
    (hk : n.kind = .callExpression) {callee : Node} (hc : n.child? .function = some callee)
    (hck : callee.kind = .identifier)
    (hns : ∀ c ∈ n.inRole .arguments, UpholdsAt q P env free c) :
    Upholds q P (Signal.All q) (do
      let name ← env.text callee
      let target ← orNotCallable (target (← Run.scopes) name)
      let arguments ← values env (enter env free) (n.inRole .arguments)
      return .value (← dispatch env (enter env free) name arguments target)) := by
  have hnames : Moves (Effect.names φ).outer
      (values env (enter env free) (n.inRole .arguments)) :=
    Effect.moves_values fun c _ => keeps_names env free c
  rcases env.settled_text callee with ⟨name, hname⟩ | ⟨f, hfail⟩
  · rw [hname, Run.pure_bind]
    intro s hs
    refine (upholds_scopes s hs).bind fun scopes s' hscopes _ _ => ?_
    cases hscopes
    have hfound : Upholds q P (·.All q) (orNotCallable (target s.scopes name)) :=
      upholds_orNotCallable fun t ht => all_target hs.scopes ht
    refine (hfound s hs).bind fun t s' ht hs' hall => ?_
    have hfrom := hnames s'
    refine (upholds_values hns s' hs').bind fun arguments u hvalues hu hargs => ?_
    have hunbound : t = .program → u.scopes.resolve? name = none := by
      rintro rfl
      obtain ⟨rfl, htarget⟩ := of_orNotCallable ht
      rw [hvalues] at hfrom
      rw [Scopes.resolve?_eq_none_iff, hfrom.1, ← Scopes.resolve?_eq_none_iff]
      exact unbound_of_target htarget
    have hdispatch := upholds_dispatch h hcall name hargs hall hu fun ht =>
      h.program n hn hk callee hc hck name hname free s' arguments u hvalues (hunbound ht) hargs
        hu.scopes
    refine hdispatch.bind fun v w _ hw hv => ?_
    exact (upholds_pure hv : Upholds q P (Signal.All q) (pure (.value v))) w hw
  · rw [hfail]
    exact fun s hs => ⟨hs, fun _ he => nomatch he⟩

theorem upholds_call_value (hcall : UpholdsCalls q P env free) {callee : Node}
    (hc : UpholdsAt q P env free callee)
    (hns : ∀ c ∈ n.inRole .arguments, UpholdsAt q P env free c) :
    Upholds q P (Signal.All q) (do
      let target ← orNotCallable (valueTarget (← valueOf env (enter env free) callee))
      let arguments ← values env (enter env free) (n.inRole .arguments)
      return .value (← dispatch env (enter env free) "<anonymous>" arguments target)) := by
  refine hc.valueOf.bind fun v hv => ?_
  intro s hs
  have hfound : Upholds q P (·.All q) (orNotCallable (valueTarget v)) :=
    upholds_orNotCallable fun t ht => all_valueTarget hv ht
  refine (hfound s hs).bind fun t s' ht hs' hall => ?_
  refine (upholds_values hns s' hs').bind fun arguments u _ hu hargs => ?_
  -- a value is never run as the program of a name
  have hprogram : t ≠ .program := by
    rintro rfl
    have htarget := (of_orNotCallable ht).2
    cases v <;> cases htarget
  have hdispatch := upholds_dispatch h hcall "<anonymous>" hargs hall hu fun ht => absurd ht hprogram
  refine hdispatch.bind fun v w _ hw hv => ?_
  exact (upholds_pure hv : Upholds q P (Signal.All q) (pure (.value v))) w hw

-- ------------------------------------------------------------- single nodes

theorem upholds_expr (hcall : UpholdsCalls q P env free) (hn : n ∈ env.root.preorder)
    (hchildren : ∀ c ∈ n.children, UpholdsAt q P env free c) :
    Upholds q P (Signal.All q) (expr env (enter env free) n) := by
  have hchild {field : Field} {c : Node} (hc : n.child? field = some c) :
      UpholdsAt q P env free c :=
    hchildren c (Node.mem_children_of_child? hc)
  have hempty : Frame.All q ([] : Frame φ) := fun p hp => nomatch hp
  have harguments : ∀ c ∈ n.inRole .arguments, UpholdsAt q P env free c :=
    fun c hc => hchildren c (Node.mem_children_of_inRole hc)
  rw [expr]
  refine Upholds.located ?_ _
  split
  · exact (upholds_literal h n).bind fun v hv => upholds_pure hv
  · exact (upholds_variableValue n).bind fun v hv => upholds_pure hv
  · rename_i hk
    exact (upholds_lambda h hn hk).bind fun v hv => upholds_pure hv
  · -- a binary expression
    split
    · exact upholds_fault _
    · rename_i left hl
      refine (hchild hl).valueOf.bind fun a ha => ?_
      split
      · exact upholds_fault _
      · rename_i right hr
        refine (hchild hr).valueOf.bind fun b hb => ?_
        refine upholds_look (still_operatorText _ _) fun text => ?_
        exact (upholds_applyOperator h text ha hb).bind fun v hv => upholds_pure hv
  · -- an attribute
    split
    · exact upholds_fault _
    · rename_i parent hp
      refine (hchild hp).valueOf.bind fun v hv => ?_
      split
      · exact upholds_fault _
      · refine upholds_look (env.still_text _) fun name => ?_
        exact (upholds_attributeOf hv name).bind fun v hv => upholds_pure hv
  · -- an array
    refine (upholds_values fun c hc => hchildren c (Node.mem_children_of_named hc)).bind ?_
    exact fun vs hvs => upholds_pure (h.array hvs)
  · -- a conditional
    split
    · exact upholds_fault _
    · rename_i condition hc
      refine (hchild hc).valueOf.bind fun v _ => ?_
      split
      · split
        · split
          · exact upholds_fault _
          · rename_i consequence ht
            exact (hchild ht).block [] hempty
        · split
          · exact upholds_pure h.undefined
          · rename_i alternative ha
            split
            · exact (hchild ha).expr
            · exact (hchild ha).block [] hempty
      · exact upholds_fault _
  · -- a call
    rename_i hk
    split
    · exact upholds_fault _
    · rename_i callee hf
      split
      · rename_i hname
        exact upholds_call_name h hcall hn hk hf hname harguments
      · exact upholds_call_value h hcall (hchild hf) harguments
  · exact upholds_fault _

omit h in
theorem upholds_valueOf (hexpr : Upholds q P (Signal.All q) (expr env (enter env free) n)) :
    Upholds q P (·.All q) (valueOf env (enter env free) n) := by
  rw [valueOf]
  refine hexpr.bind fun signal hsignal => ?_
  cases signal with
  | value v => exact upholds_pure hsignal
  | returned v => exact (upholds_fault _).located _

theorem upholds_block (hchildren : ∀ c ∈ n.children, UpholdsAt q P env free c)
    {bindings : Frame φ} (hbindings : Frame.All q bindings) :
    Upholds q P (Signal.All q) (block env (enter env free) bindings n) := by
  rw [block]
  split
  · refine Upholds.inScope (upholds_statements h fun c hc => ?_) hbindings
    exact hchildren c (Node.mem_children_of_named hc)
  · exact upholds_fault _

theorem upholds_statement (hchildren : ∀ c ∈ n.children, UpholdsAt q P env free c) :
    Upholds q P (Signal.All q) (statement env (enter env free) n) := by
  have hchild {field : Field} {c : Node} (hc : n.child? field = some c) :
      UpholdsAt q P env free c :=
    hchildren c (Node.mem_children_of_child? hc)
  rw [statement]
  refine Upholds.located ?_ _
  refine upholds_look (still_within _ _) fun _ => ?_
  split
  · -- an expression on its own
    split
    · exact upholds_fail _
    · rename_i inner rest hi
      have hmem : inner ∈ n.named := hi ▸ List.mem_cons_self
      exact (hchildren _ (Node.mem_children_of_named hmem)).expr
  · -- a declaration
    refine (upholds_declarators h fun c hc => hchildren c (Node.mem_children_of_named hc)).bind ?_
    exact fun _ _ => upholds_pure h.undefined
  · -- an assignment
    split
    · exact upholds_fault _
    · refine upholds_look (still_expectKind _ _) fun lhs => ?_
      split
      · exact upholds_fault _
      · rename_i rhs hr
        refine (hchild hr).valueOf.bind fun v hv => ?_
        refine upholds_look (env.still_text _) fun name => ?_
        refine upholds_scopes.bind fun scopes hscopes => ?_
        split
        · exact upholds_fault _
        · rename_i scopes' ha
          refine (upholds_modifyScopes fun _ _ => hscopes.assign? hv ha).bind fun _ _ => ?_
          exact upholds_pure hv
  · -- a return
    split
    · exact upholds_pure h.undefined
    · rename_i inner hi
      exact (hchild hi).valueOf.bind fun v hv => upholds_pure hv
  · exact upholds_fault _

/-- Every way to evaluate a node of the tree upholds the properties, given
that calls do. -/
theorem upholds (hcall : UpholdsCalls q P env free) (n : Node) (hn : n ∈ env.root.preorder) :
    UpholdsAt q P env free n := by
  induction n using Node.children_induction with
  | step n ih =>
    have hchildren : ∀ c ∈ n.children, UpholdsAt q P env free c :=
      fun c hc => ih c hc (Node.mem_preorder_child hn hc)
    have hexpr := upholds_expr h hcall hn hchildren
    exact {
      expr := hexpr
      valueOf := upholds_valueOf hexpr
      block := fun bindings hbindings => upholds_block h hchildren hbindings
      statement := upholds_statement h hchildren
      below := fun c hc => (hchildren c hc).valueOf }

-- ------------------------------------------------------------------- runs

/-- Calls uphold the properties, however many more may become active in
them. -/
theorem upholds_enter (free : Nat) : UpholdsCalls q P env free := by
  induction free with
  | zero =>
    intro name f arguments _ _
    rw [enter]
    split
    · exact upholds_fault _
    · exact upholds_look (still_expectKind _ _) fun _ => upholds_fault _
  | succ free ih =>
    intro name f arguments hf hargs
    have hbindings : Frame.All q (Bindings.ofList ((Callable.parameters f).zip arguments)) :=
      Frame.All.ofList_zip hargs
    rw [enter]
    split
    · exact upholds_fault _
    · refine upholds_expectKind fun body hb _ => upholds_look (still_within _ _) fun _ => ?_
      have hbody := upholds h ih body (h.body f body hb)
      refine ((hbody.block _ hbindings).inCall name).bind fun signal hsignal => ?_
      cases signal with
      | returned v => exact upholds_pure hsignal
      | value v => exact upholds_pure h.undefined

theorem upholds_topLevel (free : Nat) {ns : List Node} (hns : ∀ n ∈ ns, n ∈ env.root.preorder) :
    Upholds q P (fun _ => True) (topLevel env (enter env free) ns) := by
  induction ns with
  | nil => exact upholds_pure trivial
  | cons n rest ih =>
    rw [List.forall_mem_cons] at hns
    rw [topLevel]
    have hn := upholds h (upholds_enter h free) n hns.1
    refine (hn.statement.blamed _).bind fun signal _ => ?_
    cases signal with
    | returned v => exact (upholds_fault _).located _
    | value v => exact ih hns.2

/-- Registering brings what manifests have for the declared names. -/
theorem upholds_interfaces {ns : List Node} (hns : ∀ n ∈ ns, n ∈ env.root.preorder) :
    Upholds q P (fun _ => True) (interfaces env ns) := by
  induction ns with
  | nil => exact upholds_pure trivial
  | cons n rest ih =>
    rw [List.forall_mem_cons] at hns
    rw [interfaces]
    refine Upholds.bind (?_ : Upholds q P (fun _ => True) _) fun _ _ => ih hns.2
    refine Upholds.located ?_ _
    refine upholds_expectKind fun m hm hk => ?_
    cases hm
    split
    · exact upholds_fault _
    · rename_i a ha
      refine (settled_stringText _ _).upholds.bind fun path hpath => ?_
      split
      · exact upholds_fault _
      · rename_i b hb
        refine upholds_expectKind fun m hm hbk => ?_
        cases hm
        refine (env.settled_text _).upholds.bind fun name hname => ?_
        refine upholds_scopes.bind fun scopes hscopes => ?_
        have hregister : Upholds q P (fun p => p.2.All q) (Run.lift
            (Foreign.register env.bounds env.host env.config path name scopes)) := by
          refine upholds_lift fun p hp => ?_
          unfold Foreign.register at hp
          rcases hc : Foreign.entry env.bounds env.host env.config path name with e | command
          · rw [hc] at hp
            cases hp
          · rw [hc] at hp
            cases hp
            refine hscopes.declareGlobal name (Value.all_foreign.2 ?_)
            exact h.interface_ n hns.1 hk a ha b hb hbk path hpath name hname command hc
        exact hregister.bind fun p hp => upholds_modifyScopes fun _ _ => hp

/-- A whole program upholds the properties. -/
theorem upholds_program : Upholds q P (fun _ => True) (program env) := by
  have hmem : ∀ n ∈ env.root.named, n ∈ env.root.preorder := fun n hn =>
    Node.mem_preorder_child (Node.mem_preorder_self _) (Node.mem_children_of_named hn)
  unfold program
  refine upholds_expectKind fun root hroot _ => ?_
  cases hroot
  dsimp only
  split
  · rename_i first rest hnamed
    rw [hnamed, List.forall_mem_cons] at hmem
    split
    · refine (upholds_interfaces h fun c hc => ?_).bind fun _ _ =>
        upholds_topLevel h _ hmem.2
      exact Node.mem_preorder_child hmem.1 (Node.mem_children_of_named hc)
    · exact upholds_topLevel h _ (List.forall_mem_cons.2 hmem)
  · exact upholds_pure trivial

end

end Eval

end SamScript
