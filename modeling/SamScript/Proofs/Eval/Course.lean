/-
Invariants in every state of a run. An invariant of runs holds when work ends
if it held when the work began; with one lemma more, that it holds when the
work begins whatever work it begins (`Invariant.begun`), it holds at both
moments of everything that a run comes to. Scopes and calls change only
there, so these are all the states there are (`Visited`).
-/
import SamScript.Proofs.Eval.Invariant
import SamScript.Proofs.Eval.Reached

namespace SamScript.Eval

variable {φ : Type}

/-- Whether something holds of all values that work brings along. -/
def Work.Holds (q : Value φ → Prop) : Work φ → Prop
  | .block bindings _ => Frame.All q bindings
  | .call _ f arguments => q (.function f) ∧ ∀ v ∈ arguments, v.All q
  | _ => True

variable [Callable φ] [DecidableEq φ]

/-- The states of a run: the first, those in which work begins, those in which
it ends, and the last. -/
inductive Visited (env : Env φ) : RunState φ → Prop where
  | start : Visited env {}
  | begins {x} : Reached env x → Visited env x.state
  | ends {x} : Reached env x → Visited env (x.outcome env).2
  | stop : Visited env (program env {}).2

variable {env : Env φ} {q : Value φ → Prop} {P : Started φ → Prop} {x y : Activation φ}

open Run

section

variable (h : Invariant env q P)

include h

theorem Invariant.ownBodies : OwnBodies env := h.body

/-- Every node of the tree upholds the properties, however many calls are
left. -/
theorem Invariant.node (free : Nat) {n : Node} (hn : n ∈ env.root.preorder) :
    UpholdsAt q P env free n :=
  upholds h (upholds_enter h free) n hn

theorem Invariant.arguments (free : Nat) {p : Node} (hp : p ∈ env.root.preorder)
    {ns : List Node} (hns : ∀ n ∈ ns, p.Uses n) :
    Upholds q P (fun vs => ∀ v ∈ vs, v.All q) (values env (enter env free) ns) :=
  upholds_values fun n hn => h.node free (Node.mem_preorder_child hp (hns n hn).mem)

/-- What an invariant says of the state in which work is done, it says of the
state afterwards. -/
theorem Invariant.outcome (hx : x.work.In env.root) (hw : x.work.Holds q)
    (hs : x.state.Sound q P) : (x.outcome env).2.Sound q P := by
  obtain ⟨free, work, s⟩ := x
  cases work with
  | expr n => exact ((h.node free hx).expr s hs).1
  | valueOf n =>
    obtain ⟨p, hp, hu⟩ := hx
    exact ((h.node free (Node.mem_preorder_child hp hu.mem)).valueOf s hs).1
  | values ns =>
    obtain ⟨p, hp, hu⟩ := hx
    exact (h.arguments free hp hu s hs).1
  | block bindings n => exact ((h.node free hx).block bindings hw s hs).1
  | statements ns => exact (upholds_statements h (fun n hn => h.node free (hx n hn)) s hs).1
  | statement n => exact ((h.node free hx).statement s hs).1
  | declarators ns => exact (upholds_declarators h (fun n hn => h.node free (hx n hn)) s hs).1
  | call name f arguments => exact (upholds_enter h free name f arguments hw.1 hw.2 s hs).1
  | interface_ n => exact (upholds_interfaces h (List.forall_mem_singleton.2 hx) s hs).1

/-- What holds when work begins holds of whatever work it begins. -/
theorem Invariant.begun (hb : Begins env x y) (hx : x.work.In env.root) (hw : x.work.Holds q)
    (hs : x.state.Sound q P) : y.work.Holds q ∧ y.state.Sound q P := by
  have hempty : Frame.All q ([] : Frame φ) := fun p hp => nomatch hp
  have child {n c : Node} {field : Field} (hn : n ∈ env.root.preorder)
      (hc : n.child? field = some c) (free : Nat) : UpholdsAt q P env free c :=
    h.node free (Node.mem_preorder_child hn (Node.mem_children_of_child? hc))
  have value {n : Node} {free : Nat} {s t : RunState φ} {v : Value φ}
      (hn : UpholdsAt q P env free n) (hs : s.Sound q P)
      (hv : valueOf env (enter env free) n s = (.ok v, t)) : t.Sound q P ∧ v.All q := by
    have hfrom := hn.valueOf s hs
    unfold UpholdsFrom at hfrom
    rw [hv] at hfrom
    exact ⟨hfrom.1, hfrom.2 v rfl⟩
  have arguments {n : Node} (hn : n ∈ env.root.preorder) (hk : n.kind = .callExpression)
      {free : Nat} {s t : RunState φ} {vs : List (Value φ)} (hs : s.Sound q P)
      (hvs : values env (enter env free) (n.inRole .arguments) s = (.ok vs, t)) :
      t.Sound q P ∧ ∀ v ∈ vs, v.All q := by
    have huses : ∀ c ∈ n.inRole .arguments, n.Uses c := fun c hc =>
      .of_kind hk (by decide) (Node.mem_children_of_inRole hc)
    have hfrom := h.arguments free hn huses s hs
    unfold UpholdsFrom at hfrom
    rw [hvs] at hfrom
    exact ⟨hfrom.1, hfrom.2 vs rfl⟩
  have declared {s : RunState φ} (hs : s.Sound q P) (name : String) {v : Value φ} (hv : v.All q) :
      RunState.Sound q P { s with scopes := s.scopes.declare name v } :=
    ⟨hs.scopes.declare name hv, hs.started⟩
  cases hb with
  | left | parent | items | condition | nameArguments | callee | signal | first | statement | plain
  | declaration | assigned | returned => exact ⟨trivial, hs⟩
  | right _ hc hv _ => exact ⟨trivial, (value (child hx hc _) hs hv).1⟩
  | consequence _ hc hv _ _ => exact ⟨hempty, (value (child hx hc _) hs hv).1⟩
  | elseIf _ hc hv _ _ _ => exact ⟨trivial, (value (child hx hc _) hs hv).1⟩
  | else_ _ hc hv _ _ _ => exact ⟨hempty, (value (child hx hc _) hs hv).1⟩
  | nameCall hk _ _ _ ht hvs =>
    obtain ⟨ht', hargs⟩ := arguments hx hk hs hvs
    exact ⟨⟨all_target hs.scopes ht, hargs⟩, ht'⟩
  | valueArguments _ hc _ hv _ => exact ⟨trivial, (value (child hx hc _) hs hv).1⟩
  | valueCall hk hc _ hv ht hvs =>
    obtain ⟨hs', hv'⟩ := value (child hx hc _) hs hv
    obtain ⟨ht', hargs⟩ := arguments hx hk hs' hvs
    exact ⟨⟨all_valueTarget hv' ht, hargs⟩, ht'⟩
  | others hv =>
    obtain ⟨p, hp, hu⟩ := hx
    have hn := Node.mem_preorder_child hp (hu _ List.mem_cons_self).mem
    exact ⟨trivial, (value (h.node _ hn) hs hv).1⟩
  | body => exact ⟨trivial, hs.scopes.push hw, hs.started⟩
  | @next free n _ _ _ _ hn =>
    have hfrom := (h.node free (hx n List.mem_cons_self)).statement _ hs
    unfold UpholdsFrom at hfrom
    rw [hn] at hfrom
    exact ⟨trivial, hfrom.1⟩
  | initializer | bare => exact ⟨trivial, declared hs _ h.undefined⟩
  | initialized _ _ _ hc hv =>
    have hn := hx _ List.mem_cons_self
    obtain ⟨ht, hv'⟩ := value (child hn hc _) (declared hs _ h.undefined) hv
    exact ⟨trivial, declared ht _ hv'⟩
  | entered => exact ⟨Frame.All.ofList_zip hw.2, hs.scopes, hs.started⟩

theorem Invariant.top (hx : Top env x) : x.work.Holds q ∧ x.state.Sound q P := by
  have interfaces {ns : List Node} {s : RunState φ} (hns : ∀ n ∈ ns, n ∈ env.root.preorder)
      (hs : interfaces env ns {} = (.ok (), s)) : s.Sound q P := by
    have hkept := (upholds_interfaces h hns {} .initial).1
    rwa [hs] at hkept
  cases hx with
  | declaration _ hd hs =>
    refine ⟨trivial, interfaces (fun c hc => ?_) hs⟩
    exact mem_preorder_of_declarations (hd ▸ List.mem_append_left _ hc)
  | @statement before _ _ s t _ hs hm ht =>
    have hbefore : ∀ c ∈ before, c ∈ env.root.preorder := fun c hc =>
      mem_preorder_of_named (mem_named_of_mainStatements (hm ▸ List.mem_append_left _ hc))
    have hs := interfaces (fun c hc => mem_preorder_of_declarations hc) hs
    have hkept := (upholds_topLevel h env.config.maxCallDepth hbefore s hs).1
    rw [ht] at hkept
    exact ⟨trivial, hkept⟩

theorem Invariant.reached (hx : Reached env x) : x.work.Holds q ∧ x.state.Sound q P := by
  induction hx with
  | top hx => exact h.top hx
  | begun hx hb ih => exact h.begun hb (hx.within h.ownBodies) ih.1 ih.2

/-- An invariant holds in every state of a run. -/
theorem Invariant.visited {s : RunState φ} (hs : Visited env s) : s.Sound q P := by
  cases hs with
  | start => exact .initial
  | begins hx => exact (h.reached hx).2
  | ends hx =>
    obtain ⟨hw, hs⟩ := h.reached hx
    exact h.outcome (hx.within h.ownBodies) hw hs
  | stop => exact (upholds_program h {} .initial).1

end

end SamScript.Eval
