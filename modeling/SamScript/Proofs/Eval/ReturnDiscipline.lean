/-
Where returns surface. An expression ends in a return only if it is a
conditional, and a block or a statement only if it can (`Node.MayReturn`): that
goes down the tree with the evaluator, whatever a call does, for a call comes
to a value (`ends_in_return`).

Two faults are about returns. One is raised where a value was asked for and a
conditional ended in a return, the other where a statement of the program
itself did. In a disciplined tree such a conditional or statement would be on
the way to the body of a lambda, and neither place is.
-/
import SamScript.Proofs.Eval.Blame
import SamScript.Proofs.Tree.Returns

namespace SamScript

variable {φ α : Type}

-- ===================================================== ending in a return

namespace Run

/-- Whether a step ends in a return only under some condition. -/
def ReturnsOnly (p : Prop) (x : Run φ (Signal φ)) : Prop :=
  ∀ s v t, x s = (.ok (.returned v), t) → p

variable {p q : Prop} {x : Run φ (Signal φ)}

theorem ReturnsOnly.mono (hx : ReturnsOnly p x) (h : p → q) : ReturnsOnly q x :=
  fun s v t ht => h (hx s v t ht)

theorem returnsOnly_value (v : Value φ) : ReturnsOnly p (pure (.value v)) :=
  fun _ _ _ h => nomatch h

theorem returnsOnly_fail (e : Failure) : ReturnsOnly p (fail e : Run φ (Signal φ)) :=
  fun _ _ _ h => nomatch h

/-- A step ends as its last part does. -/
theorem returnsOnly_bind {y : Run φ α} {f : α → Run φ (Signal φ)}
    (hf : ∀ a, ReturnsOnly p (f a)) : ReturnsOnly p (y >>= f) := by
  intro s v t h
  rw [bind_apply] at h
  rcases hy : y s with ⟨e | a, u⟩
  · rw [hy] at h
    cases h
  · rw [hy] at h
    exact hf a u v t h

/-- A step whose last part can only return if an earlier one did. -/
theorem ReturnsOnly.bind {f : Signal φ → Run φ (Signal φ)} (hx : ReturnsOnly p x)
    (hf : ∀ v, ReturnsOnly p (f (.value v))) : ReturnsOnly p (x >>= f) := by
  intro s v t h
  rw [bind_apply] at h
  rcases hr : x s with ⟨e | a | a, u⟩
  · rw [hr] at h
    cases h
  · rw [hr] at h
    exact hf a u v t h
  · exact hx s a u hr

theorem ReturnsOnly.located (hx : ReturnsOnly p x) (place : Place) :
    ReturnsOnly p (located place x) := by
  intro s v t h
  unfold Run.located at h
  rcases hr : x s with ⟨e | a, u⟩
  · rw [hr] at h
    cases h
  · rw [hr] at h
    exact hx s v t (hr.trans h)

theorem ReturnsOnly.inScope (hx : ReturnsOnly p x) (bindings : Frame φ) :
    ReturnsOnly p (inScope bindings x) := by
  intro s v t h
  injection h with hr
  exact hx _ v _ (Prod.ext hr rfl)

end Run

namespace Eval

open Run Ways

variable [Callable φ] [DecidableEq φ] {env : Env φ} {call : Caller φ} {n : Node}

theorem statements_return {ns : List Node} {p : Prop}
    (h : ∀ n ∈ ns, ReturnsOnly p (statement env call n)) :
    ReturnsOnly p (statements env call ns) := by
  induction ns with
  | nil =>
    rw [statements_eq_statementsBy]
    exact returnsOnly_value _
  | cons n rest ih =>
    rw [List.forall_mem_cons] at h
    rw [statements_eq_statementsBy]
    exact ReturnsOnly.bind h.1 fun _ => ih h.2

theorem block_return {bindings : Frame φ}
    (h : ∀ c ∈ n.named, ReturnsOnly c.MayReturn (statement env call c)) :
    ReturnsOnly n.MayReturn (block env call bindings n) := by
  rw [block_eq_blockBy, blockBy]
  by_cases hk : n.kind = .statementBlock
  · rw [if_pos hk]
    have hstatements : ReturnsOnly n.MayReturn (statements env call n.named) :=
      statements_return fun c hc => (h c hc).mono (.block hk hc)
    exact hstatements.inScope _
  · rw [if_neg hk]
    exact returnsOnly_fail _

/-- Of the expressions only a conditional hands a return on. -/
theorem expr_return
    (hexpr : ∀ c ∈ n.children, ReturnsOnly c.MayReturn (expr env call c))
    (hblock : ∀ c ∈ n.children, ReturnsOnly c.MayReturn (block env call [] c)) :
    ReturnsOnly (n.kind = .ifExpression ∧ n.MayReturn) (expr env call n) := by
  rw [expr_eq_exprBy]
  refine ReturnsOnly.located ?_ _
  unfold exprCore
  cases hk : n.kind with
  | literal | identifier | lambdaExpression | arrayExpression =>
    exact returnsOnly_bind fun _ => returnsOnly_value _
  | binaryExpression =>
    dsimp only
    rcases n.child? .left with _ | left
    · exact returnsOnly_fail _
    · refine returnsOnly_bind fun a => ?_
      rcases n.child? .right with _ | right
      · exact returnsOnly_fail _
      · exact returnsOnly_bind fun b => returnsOnly_bind fun op =>
          returnsOnly_bind fun _ => returnsOnly_value _
  | nestedIdentifier =>
    dsimp only
    rcases n.child? .parent with _ | parent
    · exact returnsOnly_fail _
    · refine returnsOnly_bind fun v => ?_
      rcases n.child? .name with _ | name
      · exact returnsOnly_fail _
      · exact returnsOnly_bind fun _ => returnsOnly_bind fun _ => returnsOnly_value _
  | ifExpression =>
    dsimp only
    rcases n.child? .condition with _ | condition
    · exact returnsOnly_fail _
    · refine returnsOnly_bind fun v => ?_
      cases v with
      | int test =>
        by_cases htest : test ≠ 0
        · simp only [if_pos htest]
          rcases hc : n.child? .consequence with _ | consequence
          · exact returnsOnly_fail _
          · exact (hblock _ (Node.mem_children_of_child? hc)).mono fun h =>
              ⟨trivial, .consequence hk hc h⟩
        · simp only [if_neg htest]
          rcases hc : n.child? .else_ with _ | alternative
          · exact returnsOnly_value _
          · have helse (h : alternative.MayReturn) : True ∧ n.MayReturn := ⟨trivial, .else_ hk hc h⟩
            by_cases hif : alternative.kind = .ifExpression
            · simp only [if_pos hif]
              exact (hexpr _ (Node.mem_children_of_child? hc)).mono helse
            · simp only [if_neg hif]
              exact (hblock _ (Node.mem_children_of_child? hc)).mono helse
      | _ => exact returnsOnly_fail _
  | callExpression =>
    dsimp only
    rcases n.child? .function with _ | callee
    · exact returnsOnly_fail _
    · by_cases hname : callee.kind = .identifier
      · simp only [if_pos hname]
        exact returnsOnly_bind fun _ => returnsOnly_bind fun _ => returnsOnly_bind fun _ =>
          returnsOnly_bind fun _ => returnsOnly_bind fun _ => returnsOnly_value _
      · simp only [if_neg hname]
        exact returnsOnly_bind fun _ => returnsOnly_bind fun _ => returnsOnly_bind fun _ =>
          returnsOnly_bind fun _ => returnsOnly_value _
  | _ => exact returnsOnly_fail _

theorem statement_return (hexpr : ∀ c ∈ n.children, ReturnsOnly c.MayReturn (expr env call c)) :
    ReturnsOnly n.MayReturn (statement env call n) := by
  rw [statement_eq_statementBy]
  refine ReturnsOnly.located (returnsOnly_bind fun _ => ?_) _
  cases hk : n.kind with
  | expressionStatement =>
    dsimp only
    rcases hi : n.named with _ | ⟨inner, rest⟩
    · exact returnsOnly_fail _
    · have hc : inner ∈ n.named := hi ▸ List.mem_cons_self
      exact (hexpr inner (Node.mem_children_of_named hc)).mono (.plain hk hi)
  | variableDeclaration => exact returnsOnly_bind fun _ => returnsOnly_value _
  | assignment =>
    dsimp only
    rcases n.child? .lhs with _ | lhs
    · exact returnsOnly_fail _
    · refine returnsOnly_bind fun lhs => ?_
      rcases n.child? .rhs with _ | rhs
      · exact returnsOnly_fail _
      · refine returnsOnly_bind fun v => returnsOnly_bind fun name => returnsOnly_bind fun scopes => ?_
        rcases scopes.assign? name v with _ | scopes
        · exact returnsOnly_fail _
        · exact returnsOnly_bind fun _ => returnsOnly_value _
  | returnStatement => exact fun _ _ _ _ => .here hk
  | _ => exact returnsOnly_fail _

/-- What ends in a return is a node that can, and of the expressions only
conditionals do, however calls are entered. -/
theorem ends_in_return (env : Env φ) (call : Caller φ) (n : Node) :
    ReturnsOnly (n.kind = .ifExpression ∧ n.MayReturn) (expr env call n) ∧
      (∀ bindings, ReturnsOnly n.MayReturn (block env call bindings n)) ∧
      ReturnsOnly n.MayReturn (statement env call n) := by
  induction n using Node.children_induction with
  | step n ih =>
    have hexpr (c : Node) (hc : c ∈ n.children) : ReturnsOnly c.MayReturn (expr env call c) :=
      (ih c hc).1.mono And.right
    refine ⟨expr_return hexpr fun c hc => (ih c hc).2.1 [], fun bindings => ?_,
      statement_return hexpr⟩
    exact block_return fun c hc => (ih c (Node.mem_children_of_named hc)).2.2

-- ============================================================= discipline

variable {root p : Node}

/-- In a disciplined tree no conditional that can end in a return stands where a
value is asked for. -/
theorem not_uses_of_mayReturn (h : n.MayReturn) (hk : n.kind = .ifExpression)
    (hroot : root.Disciplined) (hp : p ∈ root.preorder) : ¬p.Uses n := by
  intro hu
  obtain ⟨above, hplace⟩ := Cursor.exists_place [] hp
  have hn : ⟨n, p :: above⟩ ∈ root.cursors := Cursor.mem_places_down hplace hu.mem
  rcases h.leadsToBody hroot hn with ⟨hlambda, -⟩ | ⟨hposition, -⟩
  · exact hu.notLambda hlambda
  · rcases hposition hk with ⟨hplain, -⟩ | ⟨hif, helse, -⟩
    · exact hu.notPlain hplain
    · have hfield := (hu.condition hif).symm.trans (Node.field_of_child? helse)
      cases hfield

/-- And no statement of the program itself can end in one. -/
theorem not_mayReturn_of_mem (hroot : root.Disciplined) (hk : root.kind = .sourceFile)
    (hn : n ∈ root.children) : ¬n.MayReturn := by
  intro h
  have hplace : ⟨n, [root]⟩ ∈ root.cursors :=
    Cursor.mem_places_down Cursor.mem_places_self hn
  exact (h.leadsToBody hroot hplace).of_child (hk ▸ nofun)

/-- So neither fault about returns is ever raised. -/
theorem no_return_fault {cause : EvalFault} {place : Option Place} (hbodies : OwnBodies env)
    (hroot : env.root.Disciplined) (h : (program env {}).1 = .error (.fault cause place)) :
    cause ≠ .returnOutsideFunction ∧ cause ≠ .returnAsValue := by
  by_cases hk : env.root.kind = .sourceFile
  · by_cases hstack : cause = .stackExhausted
    · exact hstack ▸ ⟨nofun, nofun⟩
    · rcases program_blames hk h hstack with ⟨line, -, hline, hraised, -⟩ |
        ⟨-, n, s, htop, ⟨v, t, hsignal⟩, -⟩
      · obtain ⟨x, rest, rfl, -, houtside, hvalue⟩ := hraised.first
        refine ⟨houtside, fun hcause => ?_⟩
        obtain ⟨n, hwork, v, t, hsignal⟩ := hvalue hcause
        obtain ⟨hif, hmay⟩ := (ends_in_return env (enter env x.free) n).1 _ _ _ hsignal
        have hin := (hline.reached x List.mem_cons_self).within hbodies
        rw [hwork] at hin
        obtain ⟨p, hp, hu⟩ := hin
        exact not_uses_of_mayReturn hmay hif hroot hp hu
      · cases htop with
        | statement _ _ hm _ =>
          have hmay := (ends_in_return env (enter env env.config.maxCallDepth) n).2.2 _ _ _ hsignal
          have hn := mem_named_of_mainStatements (hm ▸ List.mem_append_right _ (.head _))
          exact absurd hmay (not_mayReturn_of_mem hroot hk (Node.mem_children_of_named hn))
  · rw [program_misshapen hk] at h
    cases h
    exact ⟨nofun, nofun⟩

end Eval

-- ================================================================ the theorem

theorem EvalFault.eq_returnOutsideFunction {cause : EvalFault} (h : cause.code = "E409") :
    cause = .returnOutsideFunction := by
  cases cause with
  | returnOutsideFunction => rfl
  | _ => simp [code] at h

theorem EvalFault.eq_returnAsValue {cause : EvalFault} (h : cause.code = "E413") :
    cause = .returnAsValue := by
  cases cause with
  | returnAsValue => rfl
  | _ => simp [code] at h

/-- No run of a program whose returns all stand in bodies of lambdas, behind
conditionals in statement position alone, fails because of a return, whatever
the configuration is and whatever processes do. And in no run of any program
does a call expression end in a return. -/
theorem disciplined_returns_stay_in_bodies (r : Surroundings) (source : String) (tree : Tree)
    (hparse : Tree.ofSource r.bounds r.file source = .ok tree) :
    let env := r.env tree.root tree.source
    (tree.root.Disciplined → ∀ cause place,
      runSource r source = .error (.eval (.fault cause place)) →
        cause.code ≠ "E409" ∧ cause.code ≠ "E413") ∧
    ∀ n, n.kind = .callExpression → ∀ free s v t,
      Eval.expr env (Eval.enter env free) n s ≠ (.ok (.returned v), t) := by
  intro env
  refine ⟨fun hroot cause place hrun => ?_, fun n hk free s v t hsignal => ?_⟩
  · obtain ⟨tree', htree, hfails⟩ := evaluate_of_runSource hrun
    cases hparse.symm.trans htree
    obtain ⟨houtside, hvalue⟩ := Eval.no_return_fault (r.ownBodies _ _) hroot hfails
    exact ⟨fun h => houtside (EvalFault.eq_returnOutsideFunction h),
      fun h => hvalue (EvalFault.eq_returnAsValue h)⟩
  · have hif := ((Eval.ends_in_return env (Eval.enter env free) n).1 _ _ _ hsignal).1
    cases hk.symm.trans hif

/-- A function that returns from a chain of conditionals in one, and a call of it
that returns from the else part. -/
theorem disciplined_returns_stay_in_bodies_else_if :
    let r : Surroundings :=
      { host := ⟨fun _ => .error .nullByte, fun _ _ => .ok ⟨[], [], 0⟩⟩ }
    let source :=
      "let f = (n) => \x7b if (n) \x7b return 1; \x7d else if (2) \x7b return 2; \x7d; \x7d; f(0);"
    ∃ tree, Tree.ofSource {} none source = .ok tree ∧ tree.root.Disciplined ∧
      ∀ cause place, runSource r source = .error (.eval (.fault cause place)) →
        cause.code ≠ "E409" ∧ cause.code ≠ "E413" := by
  intro r source
  have hrun : (Tree.ofSource {} none source).toOption.any
      (fun tree => tree.root.Disciplined) = true := by
    decide +kernel
  rcases htree : Tree.ofSource {} none source with e | tree
  · rw [htree] at hrun
    cases hrun
  · rw [htree] at hrun
    have hroot : tree.root.Disciplined := of_decide_eq_true hrun
    exact ⟨tree, rfl, hroot, (disciplined_returns_stay_in_bodies r source tree htree).1 hroot⟩

end SamScript
