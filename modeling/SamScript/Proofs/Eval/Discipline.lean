/-
The discipline of frames. However evaluation ends, by a value, by a return
or by a failure at any depth, the frames and the active calls are those it
began with; the frames bind the same names in the same order; and where the
program assigns nothing, they are the same frames. Only a declaration adds
names, and only to the frame that is current when it starts.
-/
import SamScript.Proofs.Eval.Effect

namespace SamScript

variable {φ : Type}

-- ============================================================== effects

namespace Effect

/-- The names of all frames stay; a declaration may add to the current ones. -/
def names (φ : Type) : Effect φ where
  outer s t :=
    t.scopes.stack.map Bindings.names = s.scopes.stack.map Bindings.names ∧ t.calls = s.calls
  inner s t :=
    t.scopes.below.map Bindings.names = s.scopes.below.map Bindings.names ∧
      s.scopes.current.names <+: t.scopes.current.names ∧ t.calls = s.calls
  refl _ := ⟨rfl, rfl⟩
  trans h k := ⟨k.1.trans h.1, k.2.trans h.2⟩
  inner_trans h k := ⟨k.1.trans h.1, h.2.1.trans k.2.1, k.2.2.trans h.2.2⟩
  inner_of_outer h := by
    obtain ⟨hs, hc⟩ := h
    rw [Scopes.stack_eq, Scopes.stack_eq, List.map_cons, List.map_cons] at hs
    obtain ⟨hn, hb⟩ := List.cons.inj hs
    exact ⟨hb, hn ▸ List.prefix_rfl, hc⟩
  launched _ _ := ⟨rfl, rfl⟩
  declared s name value := by
    refine ⟨by rw [Scopes.below_declare], ?_, rfl⟩
    rw [Scopes.current_declare]
    exact Bindings.names_prefix_insert _ _ _
  unscoped {s t} frame h := by
    obtain ⟨hb, -, hc⟩ := h
    rw [Scopes.below_push] at hb
    have hlen : t.scopes.below.length = s.scopes.height := by
      rw [← Scopes.length_stack, ← List.length_map Bindings.names, hb, List.length_map]
    exact ⟨by rw [Scopes.stack_cutTo hlen, hb], hc⟩
  uncalled name h := ⟨h.1, by rw [h.2]; rfl⟩

theorem names_assigns : (names φ).Assigns :=
  fun _ _ _ _ h => ⟨Scopes.names_assign? h, rfl⟩

/-- The scopes stay as they are; statements may change the current frame. -/
def scopes (φ : Type) : Effect φ where
  outer s t := t.scopes = s.scopes
  inner s t := t.scopes.below = s.scopes.below
  refl _ := rfl
  trans h k := k.trans h
  inner_trans h k := k.trans h
  inner_of_outer h := by rw [h]
  launched _ _ := rfl
  declared _ _ _ := Scopes.below_declare _ _ _
  unscoped {s t} frame h := by
    rw [Scopes.below_push] at h
    have hlen : t.scopes.below.length = s.scopes.height := by rw [h, Scopes.length_stack]
    exact Scopes.eq_of_stack_eq ((Scopes.stack_cutTo hlen).trans h)
  uncalled _ h := h

end Effect

-- ================================================================ depth

/-- Whether as many frames are live as before, and the same calls active. -/
def RunState.SameDepth (s t : RunState φ) : Prop :=
  t.scopes.height = s.scopes.height ∧ t.calls = s.calls

namespace RunState.SameDepth

theorem refl (s : RunState φ) : SameDepth s s := ⟨rfl, rfl⟩

theorem trans {s t u : RunState φ} (h : SameDepth s t) (k : SameDepth t u) : SameDepth s u :=
  ⟨k.1.trans h.1, k.2.trans h.2⟩

theorem of_inner {s t : RunState φ} (h : (Effect.names φ).inner s t) : SameDepth s t := by
  obtain ⟨hb, -, hc⟩ := h
  have hlen := congrArg List.length hb
  rw [List.length_map, List.length_map, Scopes.length_below, Scopes.length_below] at hlen
  exact ⟨congrArg (· + 1) hlen, hc⟩

theorem of_outer {s t : RunState φ} (h : (Effect.names φ).outer s t) : SameDepth s t :=
  of_inner ((Effect.names φ).inner_of_outer h)

end RunState.SameDepth

namespace Eval

open Run RunState

/-- Registering puts names into the global frame and no frame on the stack. -/
theorem moves_interfaces (env : Env φ) (ns : List Node) :
    Moves SameDepth (interfaces env ns) := by
  have look {α : Type} {x : Run φ α} (hx : Still x) : Moves SameDepth x := hx.moves .refl
  induction ns with
  | nil => exact look (still_pure _)
  | cons n rest ih =>
    refine Moves.bind ?_ (fun _ => ih) .trans
    refine Moves.located ?_ _
    refine (look (still_expectKind _ _)).bind (fun n => ?_) .trans
    split
    · exact look (still_misshapen _ _)
    · refine (look (still_stringText _ _)).bind (fun path => ?_) .trans
      split
      · exact look (still_misshapen _ _)
      · refine (look (still_expectKind _ _)).bind (fun name => ?_) .trans
        refine (look (env.still_text _)).bind (fun name => ?_) .trans
        intro s
        rw [bind_apply]
        show SameDepth s (Prod.snd ((lift (Foreign.register env.bounds env.host env.config path
          name s.scopes) >>= fun p => modifyScopes fun _ => p.2) s))
        unfold Foreign.register
        rcases Foreign.entry env.bounds env.host env.config path name with e | command
        · exact .refl s
        · exact ⟨rfl, rfl⟩

private theorem assigns_names (n : Node) (_ : True) (_ : n.kind = .assignment) :
    (Effect.names φ).Assigns :=
  Effect.names_assigns

variable [Callable φ] [DecidableEq φ]

theorem moves_enter_names (env : Env φ) (free : Nat) (name : String) (f : φ)
    (arguments : List (Value φ)) :
    Moves (Effect.names φ).outer (enter env free name f arguments) :=
  Effect.moves_enter assigns_names (fun _ _ _ _ _ => trivial) free name f arguments

/-- Evaluating a node of any tree keeps the names of all frames. -/
theorem keeps_names (env : Env φ) (free : Nat) (n : Node) :
    (Effect.names φ).Keeps env (enter env free) n :=
  Effect.keeps assigns_names (moves_enter_names env free) n fun _ _ => trivial

theorem moves_topLevel (env : Env φ) (free : Nat) (ns : List Node) :
    Moves SameDepth (topLevel env (enter env free) ns) := by
  induction ns with
  | nil => exact (still_pure _).moves .refl
  | cons n rest ih =>
    have hn : Moves SameDepth (statement env (enter env free) n) :=
      (keeps_names env free n).statement.mono .of_inner
    refine (hn.blamed _).bind (fun signal => ?_) .trans
    cases signal with
    | returned v => exact ((still_fault _).moves .refl).located _
    | value v => exact ih

/-- A whole program leaves no frame and no call behind. -/
theorem moves_program (env : Env φ) : Moves SameDepth (program env) := by
  refine ((still_expectKind _ _).moves .refl).bind (fun root => ?_) .trans
  dsimp only
  split
  · split
    · exact (moves_interfaces _ _).bind (fun _ => moves_topLevel _ _ _) .trans
    · exact moves_topLevel _ _ _
  · exact (still_pure _).moves .refl

end Eval

-- =========================================================== the theorems

section

variable (r : Surroundings) (root : Node) (source : List UInt8) (free : Nat) (s : RunState)

/-- However evaluation ends, the frames are as many as before and the active
calls are the same: for an expression, a statement, a block and a call, in
any tree and from any state; so a whole program ends with the global frame
alone and no active call. -/
theorem frames_and_calls_restored :
    let env := r.env root source
    let call := Eval.enter env free
    (∀ n, s.SameDepth (Eval.expr env call n s).2) ∧
    (∀ n, s.SameDepth (Eval.statement env call n s).2) ∧
    (∀ bindings n, s.SameDepth (Eval.block env call bindings n s).2) ∧
    (∀ name f arguments, s.SameDepth (call name f arguments s).2) ∧
    (evaluate r root source).2.scopes.height = 1 ∧ (evaluate r root source).2.calls = [] := by
  intro env call
  have hkeeps := Eval.keeps_names env free
  refine ⟨fun n => .of_outer ((hkeeps n).expr s), fun n => .of_inner ((hkeeps n).statement s),
    fun bindings n => .of_outer ((hkeeps n).block bindings s), fun name f arguments => ?_, ?_⟩
  · exact .of_outer (Eval.moves_enter_names env free name f arguments s)
  · exact Eval.moves_program env {}

theorem Effect.names_frames {s t : RunState φ} (h : (Effect.names φ).outer s t) :
    t.scopes.frames.map Bindings.names = s.scopes.frames.map Bindings.names := by
  rw [Scopes.frames_eq, Scopes.frames_eq, List.map_reverse, List.map_reverse, h.1]

/-- Evaluating an expression or a block leaves every frame with its names in
their order, however it ends. A statement does so too unless it is a
declaration, which may add names to the current frame and touches no other.
Where the program assigns nothing, an expression or a block leaves the
frames as they were, values and all. -/
theorem only_assignments_reach_outer_frames :
    let env := r.env root source
    let call := Eval.enter env free
    (∀ n, (Eval.expr env call n s).2.scopes.frames.map Bindings.names
      = s.scopes.frames.map Bindings.names) ∧
    (∀ bindings n, (Eval.block env call bindings n s).2.scopes.frames.map Bindings.names
      = s.scopes.frames.map Bindings.names) ∧
    (∀ n, n.kind ≠ .variableDeclaration →
      (Eval.statement env call n s).2.scopes.frames.map Bindings.names
        = s.scopes.frames.map Bindings.names) ∧
    (∀ n, (Eval.statement env call n s).2.scopes.frames.dropLast.map Bindings.names
        = s.scopes.frames.dropLast.map Bindings.names ∧
      s.scopes.current.names <+: (Eval.statement env call n s).2.scopes.current.names) ∧
    (root.All (·.kind ≠ .assignment) → ∀ n : Node, n.All (·.kind ≠ .assignment) →
      (Eval.expr env call n s).2.scopes = s.scopes ∧
      ∀ bindings, (Eval.block env call bindings n s).2.scopes = s.scopes) := by
  intro env call
  have hkeeps := Eval.keeps_names env free
  refine ⟨fun n => Effect.names_frames ((hkeeps n).expr s),
    fun bindings n => Effect.names_frames ((hkeeps n).block bindings s),
    fun n hk => Effect.names_frames ((hkeeps n).plain hk s), fun n => ?_, fun hroot n hn => ?_⟩
  · obtain ⟨hb, hc, -⟩ := (hkeeps n).statement s
    rw [Scopes.frames_dropLast, Scopes.frames_dropLast, List.map_reverse, List.map_reverse, hb]
    exact ⟨rfl, hc⟩
  · have hassign (n : Node) (hn : n.kind ≠ .assignment) (hk : n.kind = .assignment) :
        (Effect.scopes FunctionRef).Assigns := absurd hk hn
    have hbody (f : FunctionRef) (body : Node) (hb : env.body? f = some body) :
        body.All (·.kind ≠ .assignment) := hroot.below (Node.mem_preorder_of_descendant? hb)
    have hcall := Effect.moves_enter hassign hbody free
    have hkept : (Effect.scopes FunctionRef).Keeps env call n :=
      Effect.keeps hassign hcall n hn
    exact ⟨hkept.expr s, fun bindings => hkept.block bindings s⟩

end

/-- A program without assignments, each of its nodes evaluated on its own
from nothing. -/
theorem only_assignments_reach_outer_frames_shadowing :
    ∃ tree, Tree.ofSource {} none "let x = 1; if (x) { let x = 2; };" = .ok tree ∧
      ∀ r : Surroundings, ∀ n ∈ tree.root.preorder,
        (Eval.expr (r.env tree.root tree.source)
          (Eval.enter (r.env tree.root tree.source) 1) n {}).2.scopes = {} := by
  have hparsed : (Tree.ofSource {} none "let x = 1; if (x) { let x = 2; };").toOption.any
      (fun tree => tree.root.preorder.all (·.kind ≠ .assignment)) = true := by
    decide +kernel
  rcases htree : Tree.ofSource {} none "let x = 1; if (x) { let x = 2; };" with e | tree
  · rw [htree] at hparsed
    cases hparsed
  · rw [htree] at hparsed
    have hnone : tree.root.All (·.kind ≠ .assignment) := fun n hn =>
      of_decide_eq_true (List.all_eq_true.1 hparsed n hn)
    refine ⟨tree, rfl, fun r n hn => ?_⟩
    have h := only_assignments_reach_outer_frames r tree.root tree.source 1 {}
    exact (h.2.2.2.2 hnone n (hnone.below hn)).1

end SamScript
