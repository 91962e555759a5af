/-
Every run ends. The evaluator is the one solution of its own text: `Ways.step`
over the evaluator is the evaluator (`evaluator_step`), and no other ways are
left as they are by it (`evaluator_unique`). More than that, unfolding the text
so many levels deep gives the whole of any run, whatever is done at the bottom
(`Ways.program_unfolded`): as many as there may be active calls, times
the levels of the tree. The measure is the one of the recursion, the calls
still free and then the nodes still to come; what is at the bottom is never
reached, so there is nothing to run out of.
-/
import SamScript.Proofs.Eval.Blame

namespace SamScript

namespace Eval

variable {φ : Type} [Callable φ] [DecidableEq φ]

-- =================================================================== depth

section

variable {env : Env φ} {x y : Activation φ}

/-- How many levels of the evaluator an activation can reach below it: for each
call that is free a tree full of them. -/
def Activation.reach (env : Env φ) (x : Activation φ) : Nat :=
  x.free * (3 * env.root.size + 1) + x.work.rank

theorem Begins.reach_lt (hbodies : OwnBodies env) (h : Begins env x y) :
    y.reach env < x.reach env := by
  unfold Activation.reach
  rcases h.descends with ⟨hfree, hrank⟩ | ⟨hfree, f, body, hbody, hrank⟩
  · rw [hfree]
    omega
  · have hsize := Node.size_le_of_mem_preorder (hbodies f body hbody)
    have hlt : y.work.rank < 3 * env.root.size + 1 := by omega
    calc y.free * (3 * env.root.size + 1) + y.work.rank
        < y.free * (3 * env.root.size + 1) + (3 * env.root.size + 1) := Nat.add_lt_add_left hlt _
      _ = x.free * (3 * env.root.size + 1) := by
        rw [← hfree]
        exact (Nat.succ_mul _ _).symm
      _ ≤ x.free * (3 * env.root.size + 1) + x.work.rank := Nat.le_add_right _ _

/-- How many more calls may become active in a state. -/
def spare (env : Env φ) (s : RunState φ) : Nat :=
  env.config.maxCallDepth - s.calls.length

theorem Begins.spare (h : Begins env x y) (hx : x.free = spare env x.state) :
    y.free = Eval.spare env y.state := by
  have hsum := h.free_add_calls
  unfold Eval.spare at hx ⊢
  rcases h.descends with ⟨hfree, -⟩ | ⟨hfree, -⟩ <;> omega

end

-- ========================================================== the one solution

/-- The evaluator as ways of its own. How many calls are free follows from the
state. -/
def evaluator (env : Env φ) : Ways φ where
  expr n s := expr env (enter env (spare env s)) n s
  valueOf n s := valueOf env (enter env (spare env s)) n s
  values ns s := values env (enter env (spare env s)) ns s
  block bindings n s := block env (enter env (spare env s)) bindings n s
  statements ns s := statements env (enter env (spare env s)) ns s
  statement n s := statement env (enter env (spare env s)) n s
  declarators ns s := declarators env (enter env (spare env s)) ns s
  call name f arguments s := enter env (spare env s) name f arguments s

namespace Ways

/-- The text of the evaluator, so many levels deep over some ways. -/
def unfolded (env : Env φ) (w : Ways φ) : Nat → Ways φ
  | 0 => w
  | depth + 1 => (unfolded env w depth).step env

/-- Executes the statements of a program in the given ways. -/
def topLevel (env : Env φ) (w : Ways φ) : List Node → Run φ Unit
  | [] => pure ()
  | n :: rest => do
    match ← blamed (env.place n) (w.statement n) with
    | .returned _ => Run.located (env.place n) (Run.fault .returnOutsideFunction)
    | .value _ => topLevel env w rest

/-- Evaluates a program in the given ways. -/
def program (env : Env φ) (w : Ways φ) : Run φ Unit := do
  let root ← expectKind .sourceFile (some env.root)
  interfaces env (declarations root)
  w.topLevel env (mainStatements root)

omit [Callable φ] [DecidableEq φ] in
theorem ext_perform (env : Env φ) {w w' : Ways φ}
    (h : ∀ work s, w.perform env work s = w'.perform env work s) : w = w' := by
  have expr : w.expr = w'.expr := funext fun n => funext fun s => h (.expr n) s
  have valueOf : w.valueOf = w'.valueOf := funext fun n => funext fun s => h (.valueOf n) s
  have values : w.values = w'.values := funext fun ns => funext fun s => h (.values ns) s
  have block : w.block = w'.block :=
    funext fun bindings => funext fun n => funext fun s => h (.block bindings n) s
  have statements : w.statements = w'.statements :=
    funext fun ns => funext fun s => h (.statements ns) s
  have statement : w.statement = w'.statement :=
    funext fun n => funext fun s => h (.statement n) s
  have declarators : w.declarators = w'.declarators :=
    funext fun ns => funext fun s => h (.declarators ns) s
  have call : w.call = w'.call := funext fun name => funext fun f => funext fun arguments =>
    funext fun s => h (.call name f arguments) s
  cases w
  cases w'
  cases expr; cases valueOf; cases values; cases block; cases statements; cases statement
  cases declarators; cases call
  rfl

theorem unfolded_fixed {env : Env φ} {w : Ways φ} (h : w.step env = w) (depth : Nat) :
    w.unfolded env depth = w := by
  induction depth with
  | zero => rfl
  | succ depth ih => rw [unfolded, ih, h]

end Ways

variable {env : Env φ}

theorem perform_evaluator (work : Work φ) (s : RunState φ) :
    (evaluator env).perform env work s = (⟨spare env s, work, s⟩ : Activation φ).outcome env := by
  cases work <;> rfl

/-- The evaluator does what its text says, done by the evaluator. -/
theorem evaluator_step : (evaluator env).step env = evaluator env := by
  refine Ways.ext_perform env fun work s => ?_
  rw [perform_evaluator]
  refine Ways.perform_step (x := ⟨spare env s, work, s⟩) rfl fun y hy => ?_
  have hfree : y.free = spare env y.state := hy.spare rfl
  rw [perform_evaluator, ← hfree]

/-- Deep enough, the text of the evaluator does what the evaluator does,
whatever is done at the bottom. The induction is on the depth. -/
theorem Ways.perform_unfolded (hbodies : OwnBodies env) (w : Ways φ) {depth : Nat} :
    ∀ {x : Activation φ}, x.free = spare env x.state → x.reach env < depth →
      (w.unfolded env depth).perform env x.work x.state = x.outcome env := by
  induction depth with
  | zero => exact fun _ h => absurd h (Nat.not_lt_zero _)
  | succ depth ih =>
    intro x hfree hreach
    refine perform_step hfree fun y hy => ih (hy.spare hfree) ?_
    have hlt := hy.reach_lt hbodies
    omega

/-- No other ways do what the text says. -/
theorem evaluator_unique (hbodies : OwnBodies env) {w : Ways φ} (h : w.step env = w) :
    w = evaluator env := by
  refine Ways.ext_perform env fun work s => ?_
  have hdeep := Ways.perform_unfolded hbodies w (x := ⟨spare env s, work, s⟩) rfl
    (Nat.lt_succ_self _)
  rw [Ways.unfolded_fixed h] at hdeep
  rw [hdeep, perform_evaluator]

-- ================================================================ programs

omit [Callable φ] [DecidableEq φ] in
theorem blamed_agree {α : Type} {x y : Run φ α} {s : RunState φ} (h : x s = y s) (place : Place) :
    blamed place x s = blamed place y s := by
  unfold blamed
  rw [h]

theorem Ways.topLevel_unfolded (hbodies : OwnBodies env) (w : Ways φ) {depth : Nat}
    (hdepth : (env.config.maxCallDepth + 1) * (3 * env.root.size + 1) ≤ depth) {ns : List Node}
    (hns : ∀ n ∈ ns, n ∈ env.root.preorder) : ∀ {s : RunState φ}, s.calls = [] →
      (w.unfolded env depth).topLevel env ns s
        = Eval.topLevel env (enter env env.config.maxCallDepth) ns s := by
  induction ns with
  | nil => exact fun _ => rfl
  | cons n rest ih =>
    intro s hs
    rw [List.forall_mem_cons] at hns
    rw [Eval.topLevel]
    have hspare : env.config.maxCallDepth = spare env s := by
      rw [spare, hs]
      rfl
    have hsize := Node.size_le_of_mem_preorder hns.1
    have hn : (w.unfolded env depth).statement n s
        = Eval.statement env (enter env env.config.maxCallDepth) n s := by
      refine perform_unfolded hbodies w (x := ⟨env.config.maxCallDepth, .statement n, s⟩) hspare ?_
      rw [Nat.succ_mul] at hdepth
      show env.config.maxCallDepth * (3 * env.root.size + 1) + 3 * n.size < depth
      omega
    refine Run.bind_agree (blamed_agree hn _) fun signal t ht => ?_
    have hcalls : t.calls = [] := by
      have hkept := ((keeps_names env env.config.maxCallDepth n).statement.mono
        (fun h => h.2.2)).blamed (R := fun s t => t.calls = s.calls) (env.place n) s
      rw [ht] at hkept
      exact hkept.trans hs
    cases signal with
    | returned v => rfl
    | value v => exact ih hns.2 hcalls

/-- So deep, the text of the evaluator is the whole of a run. -/
theorem Ways.program_unfolded (hbodies : OwnBodies env) (w : Ways φ) {depth : Nat}
    (hdepth : (env.config.maxCallDepth + 1) * (3 * env.root.size + 1) ≤ depth) :
    (w.unfolded env depth).program env {} = Eval.program env {} := by
  by_cases hk : env.root.kind = .sourceFile
  · rw [program_eq hk, program, expectKind_of_eq hk]
    show (interfaces env (declarations env.root) >>= fun _ =>
      (w.unfolded env depth).topLevel env (mainStatements env.root)) {} = _
    refine Run.bind_agree rfl fun _ s hs => ?_
    have hcalls : s.calls = [] := by
      have hkept := (moves_interfaces env (declarations env.root) {}).2
      rwa [hs] at hkept
    refine topLevel_unfolded hbodies w hdepth (fun n hn => ?_) hcalls
    exact mem_preorder_of_named (mem_named_of_mainStatements hn)
  · rw [program_misshapen hk, program, expectKind_of_ne hk]
    rfl

-- ================================================================ the theorem

/-- Whether work is the evaluation of a node, as an expression or a statement. -/
def Work.Evaluates (w : Work φ) (n : Node) : Prop :=
  w = .expr n ∨ w = .statement n

omit [Callable φ] [DecidableEq φ] in
theorem Work.Evaluates.rank_eq {w : Work φ} {n : Node} (h : w.Evaluates n) :
    w.rank = 3 * n.size := by
  rcases h with rfl | rfl <;> rfl

/-- Whatever is begun, directly or not, has fewer calls to spare, or as many and
less to come. -/
theorem descends_of_transGen {x y : Activation φ} (h : Relation.TransGen (Begins env) x y) :
    y.free < x.free ∨ y.free = x.free ∧ y.work.rank < x.work.rank := by
  induction h with
  | single h => rcases h.descends with h | h <;> omega
  | tail _ h ih => rcases h.descends with h | h <;> omega

theorem Reached.trans {x y : Activation φ} (hx : Reached env x)
    (h : Relation.TransGen (Begins env) x y) : Reached env y := by
  induction h with
  | single h => exact .begun hx h
  | tail _ h ih => exact .begun ih h

end Eval

/-- Every run ends, for every tree over any bytes and every limit on calls.
The evaluator is the one solution of its text, in which nothing counts down: a
call is refused when as many are active as the limit allows, and otherwise the
text only calls itself. Unfolded finitely deep, the text is the whole of the
run, whatever is done at the bottom, so the run needs no more than that. From
the evaluation of a node to that of any other in progress within it, the limit
less the active calls and the size of the node descend together; nothing
begins activations forever. And without bounds a run never ends because one
was exhausted. -/
theorem every_run_ends (r : Surroundings) (root : Node) (source : List UInt8) :
    let env := r.env root source
    (∀ w : Eval.Ways, w.step env = w ↔ w = Eval.evaluator env) ∧
    (∀ (w : Eval.Ways) (depth : Nat),
      (r.config.maxCallDepth + 1) * (3 * root.size + 1) ≤ depth →
        (w.unfolded env depth).program env {} = evaluate r root source) ∧
    (∀ x y, Eval.Reached env x → Relation.TransGen (Eval.Begins env) x y → ∀ n m,
      x.work.Evaluates n → y.work.Evaluates m →
        Prod.Lex (· < ·) (· < ·) (r.config.maxCallDepth - y.state.calls.length, m.size)
          (r.config.maxCallDepth - x.state.calls.length, n.size)) ∧
    (WellFounded fun y x => Eval.Begins env x y) ∧
    (r.bounds = {} → (evaluate r root source).1 ≠ .error .exhausted ∧
      ∀ place, (evaluate r root source).1 ≠ .error (.fault .stackExhausted place)) := by
  intro env
  have hbodies : Eval.OwnBodies env := r.ownBodies root source
  refine ⟨fun w => ⟨Eval.evaluator_unique hbodies, ?_⟩, fun w depth hdepth => ?_,
    fun x y hx hxy n m hn hm => ?_, Eval.Begins.wellFounded env, fun hbounds => ?_⟩
  · rintro rfl
    exact Eval.evaluator_step
  · exact Eval.Ways.program_unfolded hbodies w hdepth
  · have hxfree : x.free + x.state.calls.length = r.config.maxCallDepth := hx.free_add_calls
    have hyfree : y.free + y.state.calls.length = r.config.maxCallDepth :=
      (hx.trans hxy).free_add_calls
    rw [← Nat.eq_sub_of_add_eq hxfree, ← Nat.eq_sub_of_add_eq hyfree]
    rcases Eval.descends_of_transGen hxy with hlt | ⟨heq, hlt⟩
    · exact .left _ _ hlt
    · rw [hn.rank_eq, hm.rank_eq] at hlt
      rw [heq]
      exact .right _ (by omega)
  · have hprogram : env.bounds = {} → _ := Eval.program_unbounded
    exact hprogram hbounds

/-- Whether what a run came to is a fault with a cause, wherever it is. -/
def EvalFault.ends (cause : EvalFault) : Except Failure Unit → Bool
  | .error (.fault found _) => decide (found = cause)
  | _ => false

theorem EvalFault.of_ends {cause : EvalFault} {x : Except Failure Unit} (h : cause.ends x = true) :
    ∃ place, x = .error (.fault cause place) := by
  unfold EvalFault.ends at h
  split at h
  · rw [of_decide_eq_true h]
    exact ⟨_, rfl⟩
  · cases h

/-- A function that calls itself forever, with three calls allowed. -/
theorem every_run_ends_runaway :
    let r : Surroundings :=
      { host := ⟨fun _ => .error .nullByte, fun _ _ => .ok ⟨[], [], 0⟩⟩
        config := { maxCallDepth := 3 } }
    ∃ tree, Tree.ofSource {} none "let f = () => \x7b f(); \x7d; f();" = .ok tree ∧
      (∀ w : Eval.Ways, (w.unfolded (r.env tree.root tree.source) 400).program
        (r.env tree.root tree.source) {} = evaluate r tree.root tree.source) ∧
      (evaluate r tree.root tree.source).1 ≠ .error .exhausted ∧
      ∃ place, (evaluate r tree.root tree.source).1 = .error (.fault (.callDepth 3) place) := by
  intro r
  have hrun : (Tree.ofSource {} none "let f = () => \x7b f(); \x7d; f();").toOption.any
      (fun tree => decide (4 * (3 * tree.root.size + 1) ≤ 400) &&
        (EvalFault.callDepth 3).ends (evaluate r tree.root tree.source).1) = true := by
    decide +kernel
  rcases htree : Tree.ofSource {} none "let f = () => \x7b f(); \x7d; f();" with e | tree
  · rw [htree] at hrun
    cases hrun
  · rw [htree] at hrun
    obtain ⟨hsize, hfails⟩ := Bool.and_eq_true_iff.1 hrun
    obtain ⟨-, hunfolded, -, -, hbounds⟩ := every_run_ends r tree.root tree.source
    exact ⟨tree, rfl, fun w => hunfolded w 400 (of_decide_eq_true hsize), (hbounds rfl).1,
      EvalFault.of_ends hfails⟩

end SamScript
