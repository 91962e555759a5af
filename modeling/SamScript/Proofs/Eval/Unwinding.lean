/-
How failures travel. A failure of an activation is that of something that it
began, given a place on the way if it had none, or it is its own
(`Activation.Fails.origin`); and whatever it began, a failure there is its
failure (`Begins.fails`). Its own failures are raised by steps that
evaluate nothing, and those know no place; the only other one is that an
expression in place of a value ended in a return.

So a failure can be followed down, from one activation in progress to the one
within it that it came from, as far as the step that raised it.
-/
import SamScript.Proofs.Eval.Raising
import SamScript.Proofs.Eval.Unfold

namespace SamScript

variable {φ α β : Type}

namespace Run

variable {P : Failure → Prop} {x : Run φ α} {f : α → Run φ β} {s : RunState φ} {bounds : Bounds}

/-- A settled step that raises its failures, and then more. -/
theorem Settled.failsAs_bind (hx : Settled x) (hraise : Raises bounds x)
    (hraw : ∀ e, e.Raw bounds → P e) (hf : ∀ a, x = pure a → FailsAs P (f a) s) :
    FailsAs P (x >>= f) s := by
  rcases hx with ⟨a, rfl⟩ | ⟨e, rfl⟩
  · exact hf a rfl
  · exact ((hraise s).mono hraw).bind fun a t ht => nomatch ht

-- ====================================================== failing on the way

theorem bind_fails {e : Failure} (h : (x s).1 = .error e) : ((x >>= f) s).1 = .error e := by
  rw [bind_apply]
  rcases hr : x s with ⟨e' | a, t⟩
  · rw [hr] at h
    cases h
    rfl
  · rw [hr] at h
    cases h

theorem bind_fails_later {e : Failure} {a : α} {t : RunState φ} (hx : x s = (.ok a, t))
    (h : (f a t).1 = .error e) : ((x >>= f) s).1 = .error e := by
  rw [bind_apply, hx]
  exact h

theorem located_fails {e : Failure} {place : Place} (h : (x s).1 = .error e) :
    (located place x s).1 = .error (e.locate place) := by
  unfold located
  rcases hr : x s with ⟨e' | a, t⟩
  · rw [hr] at h
    cases h
    rfl
  · rw [hr] at h
    cases h

end Run

namespace Eval

open Run Ways

variable [Callable φ] [DecidableEq φ] {env : Env φ} {x y : Activation φ} {e : Failure}

-- ================================================================= origins

/-- Whether a failure is raised by the evaluator's text at an activation, or
comes from something that it begins. -/
def Activation.Comes (env : Env φ) (x : Activation φ) (e : Failure) : Prop :=
  (∃ y, Begins env x y ∧ y.Fails env e) ∨ e.Raw env.bounds

section

variable {free : Nat} {n : Node} {ns : List Node} {s : RunState φ}

/-- What an activation begins fails only as it fails. -/
theorem Begins.failsAs (h : Begins env x y) :
    FailsAs (x.Comes env) (perform env y.free y.work) y.state :=
  fun _ he => .inl ⟨y, h, he⟩

theorem raised {α : Type} {z : Run φ α} (hz : Raises env.bounds z) :
    FailsAs (x.Comes env) z s :=
  (hz s).mono fun _ => .inr

theorem failsAs_dispatch {name : String} {arguments : List (Value φ)} {found : Target φ}
    (h : ∀ f, found = .function f → Begins env x ⟨free, .call name f arguments, s⟩) :
    FailsAs (x.Comes env) (dispatch env (enter env free) name arguments found) s := by
  cases found with
  | function f => exact (h f rfl).failsAs
  | foreign template => exact raised (raises_launch env _)
  | program => exact raised (raises_launch env _)

theorem failsAs_expr :
    FailsAs (fun e => ∃ e', (⟨free, .expr n, s⟩ : Activation φ).Comes env e' ∧
      e = e'.locate (env.place n)) (expr env (enter env free) n) s := by
  rw [expr_eq_exprBy, exprBy]
  refine FailsAs.located ?_
  unfold exprCore
  cases hk : n.kind with
  | literal => exact raised ((raises_literal env n).bind fun _ => raises_pure _)
  | identifier => exact raised ((raises_variableValue env n).bind fun _ => raises_pure _)
  | lambdaExpression => exact raised ((raises_lambda env n).bind fun _ => raises_pure _)
  | binaryExpression =>
    dsimp only
    rcases hl : n.child? .left with _ | left
    · exact raised (raises_misshapen _ _)
    · refine (Begins.left hk hl).failsAs.bind fun a t ha => ?_
      rcases hr : n.child? .right with _ | right
      · exact raised (raises_misshapen _ _)
      · refine (Begins.right hk hl ha hr).failsAs.bind fun b u _ => ?_
        refine raised ((raises_operatorText env n).bind fun op => ?_)
        exact (raises_applyOperator op a b).bind fun _ => raises_pure _
  | nestedIdentifier =>
    dsimp only
    rcases hp : n.child? .parent with _ | parent
    · exact raised (raises_misshapen _ _)
    · refine (Begins.parent hk hp).failsAs.bind fun v t _ => ?_
      rcases n.child? .name with _ | name
      · exact raised (raises_misshapen _ _)
      · refine raised ((env.raises_text name).bind fun name => ?_)
        exact (raises_attributeOf v name).bind fun _ => raises_pure _
  | arrayExpression => exact (Begins.items hk).failsAs.bind fun vs t _ => failsAs_pure
  | ifExpression =>
    dsimp only
    rcases hc : n.child? .condition with _ | condition
    · exact raised (raises_misshapen _ _)
    · refine (Begins.condition hk hc).failsAs.bind fun v t hv => ?_
      cases v with
      | int test =>
        by_cases htest : test ≠ 0
        · simp only [if_pos htest]
          rcases hq : n.child? .consequence with _ | consequence
          · exact raised (raises_misshapen _ _)
          · exact (Begins.consequence hk hc hv htest hq).failsAs
        · simp only [if_neg htest]
          rcases ha : n.child? .else_ with _ | alternative
          · exact failsAs_pure
          · by_cases hif : alternative.kind = .ifExpression
            · simp only [if_pos hif]
              exact (Begins.elseIf hk hc hv htest ha hif).failsAs
            · simp only [if_neg hif]
              exact (Begins.else_ hk hc hv htest ha hif).failsAs
      | _ => exact raised (raises_fault (Failure.raw_fault rfl))
  | callExpression =>
    dsimp only
    rcases hf : n.child? .function with _ | callee
    · exact raised (raises_misshapen _ _)
    · by_cases hname : callee.kind = .identifier
      · simp only [if_pos hname]
        refine (env.settled_text callee).failsAs_bind (env.raises_text callee)
          (fun _ => .inr) fun name htext => ?_
        refine (raised raises_scopes).bind fun scopes s' hscopes => ?_
        cases hscopes
        refine (raised (raises_orNotCallable _)).bind fun found s' hfound => ?_
        obtain ⟨rfl, htarget⟩ := of_orNotCallable hfound
        refine (Begins.nameArguments hk hf hname htext htarget).failsAs.bind fun vs t hvs => ?_
        refine (failsAs_dispatch fun f hfun => ?_).bind fun v u _ => failsAs_pure
        subst hfun
        exact .nameCall hk hf hname htext htarget hvs
      · simp only [if_neg hname]
        refine (Begins.callee hk hf hname).failsAs.bind fun v t hv => ?_
        refine (raised (raises_orNotCallable _)).bind fun found t' hfound => ?_
        obtain ⟨rfl, htarget⟩ := of_orNotCallable hfound
        refine (Begins.valueArguments hk hf hname hv htarget).failsAs.bind fun vs u hvs => ?_
        refine (failsAs_dispatch fun f hfun => ?_).bind fun v u _ => failsAs_pure
        subst hfun
        exact .valueCall hk hf hname hv htarget hvs
  | _ => exact raised (raises_misshapen _ _)

/-- An expression in place of a value fails as the expression does, or because
it ended in a return. -/
theorem failsAs_valueOf :
    FailsAs (fun e => (⟨free, .expr n, s⟩ : Activation φ).Fails env e ∨
      (∃ v t, expr env (enter env free) n s = (.ok (.returned v), t)) ∧
        e = .fault .returnAsValue (some (env.place n)))
      (valueOf env (enter env free) n) s := by
  rw [valueOf_eq_valueBy]
  have hexpr : FailsAs ((⟨free, .expr n, s⟩ : Activation φ).Fails env)
      (expr env (enter env free) n) s := fun _ he => he
  refine (hexpr.mono fun _ => .inl).bind fun signal t hsignal => ?_
  cases signal with
  | value v => exact failsAs_pure
  | returned v => exact failsAs_fail (.inr ⟨⟨v, t, hsignal⟩, rfl⟩)

theorem failsAs_values :
    FailsAs ((⟨free, .values ns, s⟩ : Activation φ).Comes env) (values env (enter env free) ns) s := by
  rw [values_eq_valuesBy]
  cases ns with
  | nil => exact failsAs_pure
  | cons n rest =>
    refine Begins.first.failsAs.bind fun v t hv => ?_
    exact (Begins.others hv).failsAs.bind fun vs u _ => failsAs_pure

theorem failsAs_block {bindings : Frame φ} :
    FailsAs ((⟨free, .block bindings n, s⟩ : Activation φ).Comes env)
      (block env (enter env free) bindings n) s := by
  rw [block_eq_blockBy, blockBy]
  by_cases hk : n.kind = .statementBlock
  · rw [if_pos hk]
    exact fun e he => (Begins.body hk).failsAs e he
  · rw [if_neg hk]
    exact raised (raises_misshapen _ _)

theorem failsAs_statements :
    FailsAs ((⟨free, .statements ns, s⟩ : Activation φ).Comes env)
      (statements env (enter env free) ns) s := by
  rw [statements_eq_statementsBy]
  cases ns with
  | nil => exact failsAs_pure
  | cons n rest =>
    refine Begins.statement.failsAs.bind fun signal t hn => ?_
    cases signal with
    | returned v => exact failsAs_pure
    | value v => exact (Begins.next hn).failsAs

theorem failsAs_statement :
    FailsAs (fun e => ∃ e', (⟨free, .statement n, s⟩ : Activation φ).Comes env e' ∧
      e = e'.locate (env.place n)) (statement env (enter env free) n) s := by
  rw [statement_eq_statementBy, statementBy]
  refine FailsAs.located ((raised (raises_within ?_ _)).bind fun _ t hadmitted => ?_)
  · intro h hbounds
    rw [hbounds] at h
    exact h rfl
  obtain rfl := (still_within _ _).state_eq hadmitted
  cases hk : n.kind with
  | expressionStatement =>
    dsimp only
    rcases hi : n.named with _ | ⟨inner, rest⟩
    · exact raised (raises_abort _)
    · exact (Begins.plain hk hadmitted hi).failsAs
  | variableDeclaration =>
    exact (Begins.declaration hk hadmitted).failsAs.bind fun _ t _ => failsAs_pure
  | assignment =>
    dsimp only
    rcases hl : n.child? .lhs with _ | lhs
    · exact raised (raises_misshapen _ _)
    · refine (settled_expectKind _ _).failsAs_bind (raises_expectKind _ _) (fun _ => .inr)
        fun m hm => ?_
      obtain ⟨hm, hname⟩ := of_expectKind hm
      cases hm
      rcases hr : n.child? .rhs with _ | rhs
      · exact raised (raises_misshapen _ _)
      · refine (Begins.assigned hk hadmitted hl hname hr).failsAs.bind fun v t _ => ?_
        refine raised ((env.raises_text _).bind fun name => raises_scopes.bind fun scopes => ?_)
        rcases scopes.assign? name v with _ | scopes'
        · exact raises_fault (Failure.raw_fault rfl)
        · exact (raises_modifyScopes _).bind fun _ => raises_pure _
  | returnStatement =>
    dsimp only
    rcases hi : n.child? .value with _ | inner
    · exact failsAs_pure
    · exact (Begins.returned hk hadmitted hi).failsAs.bind fun v t _ => failsAs_pure
  | _ => exact raised (raises_misshapen _ _)

theorem failsAs_declarators :
    FailsAs ((⟨free, .declarators ns, s⟩ : Activation φ).Comes env)
      (declarators env (enter env free) ns) s := by
  rw [declarators_eq_declaratorsBy]
  cases ns with
  | nil => exact failsAs_pure
  | cons n rest =>
    refine (settled_expectKind _ _).failsAs_bind (raises_expectKind _ _) (fun _ => .inr)
      fun m hm => ?_
    obtain ⟨hm, hk⟩ := of_expectKind hm
    cases hm
    rcases hv : n.child? .variable_ with _ | variable_
    · exact raised (raises_misshapen _ _)
    · refine (env.settled_text variable_).failsAs_bind (env.raises_text variable_)
        (fun _ => .inr) fun name htext => ?_
      refine (raised (raises_modifyScopes _)).bind fun _ t ht => ?_
      cases ht
      rcases hi : n.child? .value with _ | inner
      · exact (Begins.bare hk hv htext hi).failsAs
      · refine (Begins.initializer hk hv htext hi).failsAs.bind fun v t hinner => ?_
        refine (raised (raises_modifyScopes _)).bind fun _ u hu => ?_
        cases hu
        exact (Begins.initialized hk hv htext hi hinner).failsAs

theorem failsAs_call {name : String} {f : φ} {arguments : List (Value φ)} :
    FailsAs ((⟨free, .call name f arguments, s⟩ : Activation φ).Comes env)
      (enter env free name f arguments) s := by
  by_cases hlength : arguments.length ≠ (Callable.parameters f).length
  · cases free <;>
      (rw [enter]; simp only [if_pos hlength]; exact raised (raises_fault (Failure.raw_fault rfl)))
  · cases free with
    | zero =>
      rw [enter]
      simp only [if_neg hlength]
      refine raised ((raises_expectKind _ _).bind fun _ => ?_)
      exact raises_fault (Failure.raw_fault rfl)
    | succ free =>
      rw [enter]
      simp only [if_neg hlength]
      refine (settled_expectKind _ _).failsAs_bind (raises_expectKind _ _) (fun _ => .inr)
        fun body hbody => ?_
      obtain ⟨hbody, hk⟩ := of_expectKind hbody
      refine (raised (raises_within ?_ _)).bind fun _ t hwithin => ?_
      · intro h hbounds
        rw [hbounds] at h
        exact h rfl
      obtain rfl := (still_within _ _).state_eq hwithin
      have hbegins : Begins env ⟨free + 1, .call name f arguments, t⟩ _ :=
        .entered (Decidable.not_not.1 hlength) hbody hk hwithin
      refine FailsAs.bind (fun e he => hbegins.failsAs e he) fun signal t _ => ?_
      cases signal <;> exact failsAs_pure

theorem failsAs_interface :
    FailsAs (fun e => ∃ e', (⟨free, .interface_ n, s⟩ : Activation φ).Comes env e' ∧
      e = e'.locate (env.place n)) (interfaces env [n]) s := by
  rw [interfaces]
  refine FailsAs.bind (FailsAs.located ?_) fun _ t _ => failsAs_pure
  refine raised ((raises_expectKind _ _).bind fun m => ?_)
  split
  · exact raises_misshapen _ _
  · refine (raises_stringText env _).bind fun path => ?_
    split
    · exact raises_misshapen _ _
    · refine (raises_expectKind _ _).bind fun name => (env.raises_text name).bind fun name => ?_
      refine raises_scopes.bind fun scopes => Raises.bind (raises_lift fun e he => ?_) fun p =>
        raises_modifyScopes _
      unfold Foreign.register at he
      rcases hentry : Foreign.entry env.bounds env.host env.config path name with e' | command
      · rw [hentry] at he
        cases he
        exact Foreign.entry_raw hentry
      · rw [hentry] at he
        cases he

end

/-- Where a failure comes from: from something that was begun, from the
evaluator's own text, or from a return in place of a value. -/
theorem Activation.Fails.origin (h : x.Fails env e) :
    (∃ e', x.Comes env e' ∧ e = x.passes env e') ∨
      ∃ n, x.work = .valueOf n ∧
        (∃ v t, expr env (enter env x.free) n x.state = (.ok (.returned v), t)) ∧
        e = .fault .returnAsValue (some (env.place n)) := by
  obtain ⟨free, work, s⟩ := x
  cases work with
  | expr n => exact .inl (failsAs_expr e h)
  | statement n => exact .inl (failsAs_statement e h)
  | interface_ n => exact .inl (failsAs_interface e h)
  | values ns => exact .inl ⟨e, failsAs_values e h, rfl⟩
  | block bindings n => exact .inl ⟨e, failsAs_block e h, rfl⟩
  | statements ns => exact .inl ⟨e, failsAs_statements e h, rfl⟩
  | declarators ns => exact .inl ⟨e, failsAs_declarators e h, rfl⟩
  | call name f arguments => exact .inl ⟨e, failsAs_call e h, rfl⟩
  | valueOf n =>
    rcases failsAs_valueOf e h with hexpr | ⟨hsignal, he⟩
    · -- the expression has given its failure a place already
      obtain ⟨e', -, rfl⟩ := failsAs_expr e hexpr
      exact .inl ⟨_, .inl ⟨_, .signal, hexpr⟩, (Failure.locate_locate _ _ _).symm⟩
    · exact .inr ⟨n, rfl, hsignal, he⟩

-- ============================================================== propagation

section

variable {free : Nat} {n : Node} {s : RunState φ}

theorem expr_fails (h : (exprCore env (ways env (enter env free)) n s).1 = .error e) :
    (⟨free, .expr n, s⟩ : Activation φ).Fails env (e.locate (env.place n)) := by
  show (expr env (enter env free) n s).1 = _
  rw [expr_eq_exprBy]
  exact located_fails h

theorem statement_fails (h : (statementCore env (ways env (enter env free)) n s).1 = .error e) :
    (⟨free, .statement n, s⟩ : Activation φ).Fails env (e.locate (env.place n)) := by
  show (Eval.statement env (enter env free) n s).1 = _
  rw [statement_eq_statementBy]
  exact located_fails h

end

/-- Whatever fails is the failure of what began it. -/
theorem Begins.fails (hb : Begins env x y) (h : y.Fails env e) :
    x.Fails env (x.passes env e) := by
  cases hb with
  | left hk hc | parent hk hc | condition hk hc =>
    refine expr_fails ?_
    simp only [exprCore, hk, hc]
    exact bind_fails h
  | right hk hc hv hd =>
    refine expr_fails ?_
    simp only [exprCore, hk, hc]
    refine bind_fails_later hv ?_
    simp only [hd]
    exact bind_fails h
  | items hk =>
    refine expr_fails ?_
    simp only [exprCore, hk]
    exact bind_fails h
  | consequence hk hc hv ht hd =>
    refine expr_fails ?_
    simp only [exprCore, hk, hc]
    refine bind_fails_later hv ?_
    simp only [if_pos ht, hd]
    exact h
  | elseIf hk hc hv ht hd hif =>
    refine expr_fails ?_
    simp only [exprCore, hk, hc]
    refine bind_fails_later hv ?_
    simp only [if_neg ht, hd, if_pos hif]
    exact h
  | else_ hk hc hv ht hd hif =>
    refine expr_fails ?_
    simp only [exprCore, hk, hc]
    refine bind_fails_later hv ?_
    simp only [if_neg ht, hd, if_neg hif]
    exact h
  | nameArguments hk hc hname htext ht =>
    refine expr_fails ?_
    simp only [exprCore, hk, hc, if_pos hname, htext]
    refine bind_fails_later rfl (bind_fails_later rfl ?_)
    exact bind_fails_later (orNotCallable_of_eq ht _) (bind_fails h)
  | nameCall hk hc hname htext ht hvs =>
    refine expr_fails ?_
    simp only [exprCore, hk, hc, if_pos hname, htext]
    refine bind_fails_later rfl (bind_fails_later rfl ?_)
    exact bind_fails_later (orNotCallable_of_eq ht _) (bind_fails_later hvs (bind_fails h))
  | callee hk hc hname =>
    refine expr_fails ?_
    simp only [exprCore, hk, hc, if_neg hname]
    exact bind_fails h
  | valueArguments hk hc hname hv ht =>
    refine expr_fails ?_
    simp only [exprCore, hk, hc, if_neg hname]
    refine bind_fails_later hv ?_
    exact bind_fails_later (orNotCallable_of_eq ht _) (bind_fails h)
  | valueCall hk hc hname hv ht hvs =>
    refine expr_fails ?_
    simp only [exprCore, hk, hc, if_neg hname]
    refine bind_fails_later hv ?_
    exact bind_fails_later (orNotCallable_of_eq ht _) (bind_fails_later hvs (bind_fails h))
  | @signal free n s =>
    -- the expression has given its failure a place already
    obtain ⟨e', -, rfl⟩ := failsAs_expr e h
    have hplace : (e'.locate (env.place n)).locate (env.place n) = e'.locate (env.place n) :=
      Failure.locate_locate _ _ _
    show (valueOf env (enter env free) n s).1 = .error ((e'.locate _).locate (env.place n))
    rw [hplace, valueOf_eq_valueBy]
    exact bind_fails h
  | @first free n rest s =>
    show (values env (enter env free) (n :: rest) s).1 = _
    rw [values_eq_valuesBy]
    exact bind_fails h
  | @others free n rest s v t hv =>
    show (values env (enter env free) (n :: rest) s).1 = _
    rw [values_eq_valuesBy]
    exact bind_fails_later hv (bind_fails h)
  | @body free bindings n s hk =>
    show (block env (enter env free) bindings n s).1 = _
    rw [block_eq_blockBy, blockBy, if_pos hk]
    exact h
  | @statement free n rest s =>
    show (statements env (enter env free) (n :: rest) s).1 = _
    rw [statements_eq_statementsBy]
    exact bind_fails h
  | @next free n rest s v t hn =>
    show (statements env (enter env free) (n :: rest) s).1 = _
    rw [statements_eq_statementsBy]
    exact bind_fails_later hn h
  | plain hk hadmitted hi =>
    refine statement_fails (bind_fails_later hadmitted ?_)
    simp only [hk, hi]
    exact h
  | declaration hk hadmitted =>
    refine statement_fails (bind_fails_later hadmitted ?_)
    simp only [hk]
    exact bind_fails h
  | assigned hk hadmitted hl hname hr =>
    refine statement_fails (bind_fails_later hadmitted ?_)
    simp only [hk, hl, hr, expectKind_of_eq hname]
    exact bind_fails_later rfl (bind_fails h)
  | returned hk hadmitted hi =>
    refine statement_fails (bind_fails_later hadmitted ?_)
    simp only [hk, hi]
    exact bind_fails h
  | @initializer free n rest s _ _ _ hk hv htext hi =>
    show (declarators env (enter env free) (n :: rest) s).1 = _
    rw [declarators_eq_declaratorsBy]
    simp only [declaratorsBy, expectKind_of_eq hk, hv, htext, hi]
    exact bind_fails_later rfl (bind_fails_later rfl (bind_fails_later rfl (bind_fails h)))
  | @bare free n rest s _ _ hk hv htext hi =>
    show (declarators env (enter env free) (n :: rest) s).1 = _
    rw [declarators_eq_declaratorsBy]
    simp only [declaratorsBy, expectKind_of_eq hk, hv, htext, hi]
    exact bind_fails_later rfl (bind_fails_later rfl (bind_fails_later rfl h))
  | @initialized free n rest s _ _ _ _ _ hk hv htext hi hinner =>
    show (declarators env (enter env free) (n :: rest) s).1 = _
    rw [declarators_eq_declaratorsBy]
    simp only [declaratorsBy, expectKind_of_eq hk, hv, htext, hi]
    refine bind_fails_later rfl (bind_fails_later rfl (bind_fails_later rfl ?_))
    exact bind_fails_later hinner (bind_fails_later rfl h)
  | @entered free name f arguments s body hlength hbody hk hwithin =>
    show (enter env (free + 1) name f arguments s).1 = _
    rw [enter, hbody]
    simp only [if_neg (not_not_intro hlength), expectKind_of_eq hk]
    exact bind_fails_later rfl (bind_fails_later hwithin (bind_fails h))

end Eval

end SamScript
