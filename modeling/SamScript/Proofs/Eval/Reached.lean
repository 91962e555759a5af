/-
What is true of whatever a run comes to. Each fact is kept by every rule of
`Begins` and holds of what the program itself begins, so it holds all through
a run: the nodes at work are nodes of the tree, in the places that their
parents have for them (`Reached.within`), and the calls that are still free
and those that are active make up the limit together
(`Reached.free_add_calls`).
-/
import SamScript.Proofs.Eval.Begins

namespace SamScript

/-- Whether a child of a node is in a place where a value is asked for. What an
expression statement holds, the arms of a conditional and the body of a lambda
are not: there a return may pass. -/
structure Node.Uses (p c : Node) : Prop where
  mem : c ∈ p.children
  notPlain : p.kind ≠ .expressionStatement
  notLambda : p.kind ≠ .lambdaExpression
  condition : p.kind = .ifExpression → c.field = some .condition

theorem Node.field_of_child? {n c : Node} {field : Field} (h : n.child? field = some c) :
    c.field = some field := by
  have hfound := List.find?_some h
  exact of_decide_eq_true hfound

/-- A child of a node whose kind is none of the three. -/
theorem Node.Uses.of_kind {p c : Node} {kind : NodeKind} (hk : p.kind = kind)
    (hkind : kind ≠ .expressionStatement ∧ kind ≠ .lambdaExpression ∧ kind ≠ .ifExpression)
    (hc : c ∈ p.children) : p.Uses c :=
  ⟨hc, hk ▸ hkind.1, hk ▸ hkind.2.1, fun h => absurd (hk.symm.trans h) hkind.2.2⟩

namespace Eval

variable {φ : Type}

-- ========================================================= in the tree

/-- Whether work is about nodes of a tree, each in a place that its parent
has for it. -/
def Work.In (root : Node) : Work φ → Prop
  | .expr n | .statement n | .interface_ n | .block _ n => n ∈ root.preorder
  | .valueOf n => ∃ p ∈ root.preorder, p.Uses n
  | .values ns => ∃ p ∈ root.preorder, ∀ n ∈ ns, p.Uses n
  | .statements ns | .declarators ns => ∀ n ∈ ns, n ∈ root.preorder
  | .call _ _ _ => True

/-- The node of work is a node of the tree. -/
theorem Work.In.node {root n : Node} {w : Work φ} (h : w.In root) (hn : w.node? = some n) :
    n ∈ root.preorder := by
  cases w with
  | expr | statement | interface_ =>
    cases hn
    exact h
  | valueOf =>
    cases hn
    obtain ⟨p, hp, hu⟩ := h
    exact Node.mem_preorder_child hp hu.mem
  | values | block | statements | declarators | call => cases hn

/-- Whether all bodies of functions are nodes of the tree. -/
def OwnBodies (env : Env φ) : Prop :=
  ∀ f b, env.body? f = some b → b ∈ env.root.preorder

variable [Callable φ] [DecidableEq φ] {env : Env φ} {x y : Activation φ}

theorem Begins.within (hbodies : OwnBodies env) (h : Begins env x y)
    (hx : x.work.In env.root) : y.work.In env.root := by
  have child {n c : Node} {field : Field} (hn : n ∈ env.root.preorder)
      (hc : n.child? field = some c) : c ∈ env.root.preorder :=
    Node.mem_preorder_child hn (Node.mem_children_of_child? hc)
  have named {n : Node} (hn : n ∈ env.root.preorder) : ∀ c ∈ n.named, c ∈ env.root.preorder :=
    fun c hc => Node.mem_preorder_child hn (Node.mem_children_of_named hc)
  cases h with
  | left hk hc | right hk _ _ hc | parent hk hc | callee hk hc _ =>
    exact ⟨_, hx, .of_kind hk (by decide) (Node.mem_children_of_child? hc)⟩
  | items hk => exact ⟨_, hx, fun c hc => .of_kind hk (by decide) (Node.mem_children_of_named hc)⟩
  | condition hk hc =>
    have hkinds : NodeKind.ifExpression ≠ .expressionStatement ∧
        NodeKind.ifExpression ≠ .lambdaExpression := by decide
    exact ⟨_, hx, Node.mem_children_of_child? hc, hk ▸ hkinds.1, hk ▸ hkinds.2,
      fun _ => Node.field_of_child? hc⟩
  | consequence _ _ _ _ hc | elseIf _ _ _ _ hc _ | else_ _ _ _ _ hc _ => exact child hx hc
  | nameArguments hk | valueArguments hk =>
    exact ⟨_, hx, fun c hc => .of_kind hk (by decide) (Node.mem_children_of_inRole hc)⟩
  | nameCall | valueCall => trivial
  | signal =>
    obtain ⟨p, hp, hu⟩ := hx
    exact Node.mem_preorder_child hp hu.mem
  | first =>
    obtain ⟨p, hp, hu⟩ := hx
    exact ⟨p, hp, hu _ List.mem_cons_self⟩
  | others =>
    obtain ⟨p, hp, hu⟩ := hx
    exact ⟨p, hp, fun c hc => hu c (List.mem_cons_of_mem _ hc)⟩
  | body => exact named hx
  | statement => exact hx _ List.mem_cons_self
  | next | bare | initialized => exact fun c hc => hx c (List.mem_cons_of_mem _ hc)
  | plain _ _ hc => exact named hx _ (hc ▸ List.mem_cons_self)
  | declaration => exact named hx
  | assigned hk _ _ _ hc | returned hk _ hc =>
    exact ⟨_, hx, .of_kind hk (by decide) (Node.mem_children_of_child? hc)⟩
  | initializer hk _ _ hc =>
    exact ⟨_, hx _ List.mem_cons_self, .of_kind hk (by decide) (Node.mem_children_of_child? hc)⟩
  | entered _ hb _ _ => exact hbodies _ _ hb

-- ============================================================ in a program

theorem mem_preorder_of_named {root n : Node} (h : n ∈ root.named) : n ∈ root.preorder :=
  Node.mem_preorder_child (Node.mem_preorder_self root) (Node.mem_children_of_named h)

theorem mem_named_of_mainStatements {root n : Node} (h : n ∈ mainStatements root) :
    n ∈ root.named := by
  unfold mainStatements at h
  split at h
  · rename_i first rest hnamed
    rw [hnamed]
    split at h
    · exact List.mem_cons_of_mem first h
    · exact h
  · cases h

theorem mem_preorders_of_declarations {root n : Node} (h : n ∈ declarations root) :
    n ∈ Node.preorders root.children := by
  unfold declarations at h
  split at h
  · rename_i first rest hnamed
    split at h
    · have hfirst : first ∈ root.children := Node.mem_children_of_named (hnamed ▸ List.mem_cons_self)
      refine Node.mem_preorders.2 ⟨first, hfirst, ?_⟩
      exact Node.mem_preorder_child (Node.mem_preorder_self first) (Node.mem_children_of_named h)
    · cases h
  · cases h

theorem mem_preorder_of_declarations {root n : Node} (h : n ∈ declarations root) :
    n ∈ root.preorder := by
  rw [Node.preorder_eq]
  exact List.mem_cons_of_mem root (mem_preorders_of_declarations h)

theorem mem_preorders_of_mainStatements {root n : Node} (h : n ∈ mainStatements root) :
    n ∈ Node.preorders root.children :=
  Node.mem_preorders.2 ⟨n, Node.mem_children_of_named (mem_named_of_mainStatements h),
    Node.mem_preorder_self n⟩

theorem Top.within (h : Top env x) : x.work.In env.root := by
  cases h with
  | declaration _ hd _ => exact mem_preorder_of_declarations (hd ▸ List.mem_append_right _ (.head _))
  | statement _ _ hm _ =>
    have hmem := mem_named_of_mainStatements (hm ▸ List.mem_append_right _ (.head _))
    exact mem_preorder_of_named hmem

theorem Reached.within (hbodies : OwnBodies env) (h : Reached env x) : x.work.In env.root := by
  induction h with
  | top h => exact h.within
  | begun _ hb ih => exact hb.within hbodies ih

-- =================================================================== calls

section

variable {free : Nat} {s t : RunState φ}

theorem calls_of_valueOf {n : Node} {r : Except Failure (Value φ)}
    (h : valueOf env (enter env free) n s = (r, t)) : t.calls = s.calls := by
  have hkept := ((keeps_names env free n).valueOf s).2
  rwa [h] at hkept

theorem calls_of_values {ns : List Node} {r : Except Failure (List (Value φ))}
    (h : values env (enter env free) ns s = (r, t)) : t.calls = s.calls := by
  have hkept := (Effect.moves_values (fun c (_ : c ∈ ns) => keeps_names env free c) s).2
  rwa [h] at hkept

theorem calls_of_statement {n : Node} {r : Except Failure (Signal φ)}
    (h : statement env (enter env free) n s = (r, t)) : t.calls = s.calls := by
  have hkept := ((keeps_names env free n).statement s).2.2
  rwa [h] at hkept

end

/-- Entering a call takes one of those that are free; nothing else does. -/
theorem Begins.free_add_calls (h : Begins env x y) :
    y.free + y.state.calls.length = x.free + x.state.calls.length := by
  cases h with
  | left | parent | items | condition | nameArguments | callee | signal | first | body | statement
  | plain | declaration | assigned | returned | initializer | bare => rfl
  | right _ _ hv _ | consequence _ _ hv _ _ | elseIf _ _ hv _ _ _ | else_ _ _ hv _ _ _
  | valueArguments _ _ _ hv _ | others hv =>
    dsimp only
    rw [calls_of_valueOf hv]
  | initialized _ _ _ _ hv =>
    dsimp only
    rw [calls_of_valueOf hv]
  | nameCall _ _ _ _ _ hvs =>
    dsimp only
    rw [calls_of_values hvs]
  | valueCall _ _ _ hv _ hvs =>
    dsimp only
    rw [calls_of_values hvs, calls_of_valueOf hv]
  | next hs =>
    dsimp only
    rw [calls_of_statement hs]
  | entered =>
    dsimp only [List.length_cons]
    omega

theorem Top.free_add_calls (h : Top env x) :
    x.free + x.state.calls.length = env.config.maxCallDepth := by
  have interfaces {ns : List Node} {s t : RunState φ} (hr : interfaces env ns s = (.ok (), t)) :
      t.calls = s.calls := by
    have hkept := (moves_interfaces env ns s).2
    rwa [hr] at hkept
  cases h with
  | declaration _ _ hs =>
    dsimp only
    rw [interfaces hs]
    rfl
  | @statement before _ _ s t _ hs _ ht =>
    have hkept := (moves_topLevel env env.config.maxCallDepth before s).2
    rw [ht] at hkept
    dsimp only
    rw [hkept, interfaces hs]
    rfl

/-- At every moment the calls still free and those that are active make up
the limit. -/
theorem Reached.free_add_calls (h : Reached env x) :
    x.free + x.state.calls.length = env.config.maxCallDepth := by
  induction h with
  | top h => exact h.free_add_calls
  | begun _ hb ih => exact hb.free_add_calls.trans ih

end Eval

/-- Bodies that are looked up in a tree are in it. -/
theorem Surroundings.ownBodies (r : Surroundings) (root : Node) (source : List UInt8) :
    Eval.OwnBodies (r.env root source) :=
  fun _ _ h => Node.mem_preorder_of_descendant? h

end SamScript
