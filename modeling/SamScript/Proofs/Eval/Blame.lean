/-
What a run is blamed on. Below an activation that fails for some cause there
is a line of activations in progress, one inside the other, that all fail for
it; the latest of them raised it, none of what that one began having failed
(`Raised`). The failure takes the place of the innermost expression, statement
or declaration of the line, and every one around it ends in that same failure:
the induction is down the line, from what was begun first to what raised it,
and the place travels back up (`Activation.Fails.raised`).

A program fails as what it begins fails, with two exceptions of its own: a
return that leaves a statement, and a statement that exhausted a bound.
-/
import SamScript.Proofs.Eval.Equations
import SamScript.Proofs.Eval.Unwinding

namespace SamScript.Eval

open Run

variable {φ : Type} {env : Env φ} {x y : Activation φ} {e : Failure} {cause : EvalFault}
  {place : Option Place}

-- ================================================================== places

/-- A place that is known stays, and one that is not is that of the node. -/
theorem Activation.passes_fault (known : Option Node) :
    x.passes env (.fault cause (known.map env.place)) =
      .fault cause ((known.or x.work.node?).map env.place) := by
  unfold passes
  cases known <;> cases x.work.node? <;> rfl

/-- The cause of a failure is the same all the way. -/
theorem Activation.of_passes (h : Failure.fault cause place = x.passes env e) :
    ∃ known, e = .fault cause known := by
  unfold passes at h
  split at h
  · rcases e with ⟨cause', _ | known⟩ | abort | _ <;> cases h <;> exact ⟨_, rfl⟩
  · exact ⟨place, h.symm⟩

variable [Callable φ] [DecidableEq φ]

-- ============================================================= exhaustion

/-- Only bounds are ever exhausted. -/
theorem Activation.Fails.bounded (h : x.Fails env .exhausted) : env.bounds ≠ {} := by
  induction x using (Begins.wellFounded env).induction with
  | _ x ih =>
    rcases h.origin with ⟨e', hcomes, he⟩ | ⟨n, -, -, he⟩
    · have he' : e' = .exhausted := by
        unfold passes at he
        split at he
        · rcases e' with ⟨cause, _ | known⟩ | abort | _ <;> first | rfl | cases he
        · exact he.symm
      subst he'
      rcases hcomes with ⟨y, hb, hy⟩ | hraw
      · exact ih y hb hy
      · exact hraw
    · cases he

-- ================================================================ the line

/-- The innermost expression, statement or declaration of activations in
progress, the latest of which comes first. -/
def innermost (line : List (Activation φ)) : Option Node :=
  line.findSome? fun x => x.work.node?

/-- Whether activations all fail for a cause that the first of them raised.
What it began did not fail, so it did so itself; and those that evaluate a
node fail at the innermost such node. -/
structure Raised (env : Env φ) (cause : EvalFault) (line : List (Activation φ)) : Prop where
  first : ∃ x rest, line = x :: rest ∧ (∀ y, Begins env x y → ∀ e, ¬y.Fails env e) ∧
    cause ≠ .returnOutsideFunction ∧
    (cause = .returnAsValue → ∃ n, x.work = .valueOf n ∧
      ∃ v t, expr env (enter env x.free) n x.state = (.ok (.returned v), t))
  fails : ∀ x ∈ line, x.Fails env (.fault cause none) ∨
    x.Fails env (.fault cause ((innermost line).map env.place))
  kept : ∀ x ∈ line, x.work.node? ≠ none →
    x.Fails env (.fault cause ((innermost line).map env.place))

omit [Callable φ] [DecidableEq φ] in
theorem innermost_concat (line : List (Activation φ)) (x : Activation φ) :
    innermost (line ++ [x]) = (innermost line).or x.work.node? := by
  unfold innermost
  rw [List.findSome?_append, List.findSome?_singleton]

/-- One more around the line: it fails for the same cause. -/
theorem Raised.around {line : List (Activation φ)} (h : Raised env cause line)
    (hx : x.Fails env (.fault cause ((innermost (line ++ [x])).map env.place))) :
    Raised env cause (line ++ [x]) := by
  have hin {z : Activation φ} (hz : z ∈ line ++ [x]) : z ∈ line ∨ z = x := by
    rwa [List.mem_append, List.mem_singleton] at hz
  -- a place that is known in the line is the place of the longer line
  have hsame {n : Node} (hn : innermost line = some n) : innermost (line ++ [x]) = some n := by
    rw [innermost_concat, hn]
    rfl
  refine ⟨?_, fun z hz => ?_, fun z hz hnode => ?_⟩
  · obtain ⟨z, rest, rfl, hz⟩ := h.first
    exact ⟨z, rest ++ [x], rfl, hz⟩
  · rcases hin hz with hz | rfl
    · rcases h.fails z hz with hfails | hfails
      · exact .inl hfails
      · rcases hn : innermost line with _ | n
        · rw [hn] at hfails
          exact .inl hfails
        · rw [hn] at hfails
          rw [hsame hn]
          exact .inr hfails
    · exact .inr hx
  · rcases hin hz with hz | rfl
    · have hkept := h.kept z hz hnode
      rcases hn : innermost line with _ | n
      · have hnone := List.findSome?_eq_none_iff.1 hn z hz
        exact absurd hnone hnode
      · rw [hn] at hkept
        rw [hsame hn]
        exact hkept
    · exact hx

/-- Below a failing activation in progress there is a line that ends in the one
that raised the cause. -/
theorem Activation.Fails.raised (h : x.Fails env (.fault cause place)) :
    ∀ {xs}, InProgress env (x :: xs) →
      ∃ line, InProgress env (line ++ x :: xs) ∧ Raised env cause (line ++ [x]) ∧
        place = (innermost (line ++ [x])).map env.place := by
  induction x using (Begins.wellFounded env).induction generalizing place with
  | _ x ih =>
    intro xs hxs
    by_cases hbegun : ∃ y, Begins env x y ∧ ∃ e, y.Fails env e
    · -- something it began fails, and that is why it fails
      obtain ⟨y, hb, e, hy⟩ := hbegun
      have hx := hb.fails hy
      obtain ⟨known, rfl⟩ := of_passes (Except.error.inj (h.symm.trans hx))
      obtain ⟨line, hline, hraised, rfl⟩ := ih y hb hy (.begun hxs hb)
      rw [passes_fault, ← innermost_concat] at hx
      have hplace := Except.error.inj (h.symm.trans hx)
      refine ⟨line ++ [y], ?_, hraised.around hx, ?_⟩
      · rwa [List.append_assoc, List.singleton_append]
      · injection hplace
    · -- it raised the cause itself
      have halone : ∀ y, Begins env x y → ∀ e, ¬y.Fails env e :=
        fun y hb e hy => hbegun ⟨y, hb, e, hy⟩
      have hone : innermost [x] = x.work.node? := innermost_concat [] x
      have hplace : place = (innermost [x]).map env.place ∧ cause ≠ .returnOutsideFunction ∧
          (cause = .returnAsValue → ∃ n, x.work = .valueOf n ∧
            ∃ v t, expr env (enter env x.free) n x.state = (.ok (.returned v), t)) := by
        rw [hone]
        rcases h.origin with ⟨e', ⟨y, hb, hy⟩ | hraw, he⟩ | ⟨n, hwork, hsignal, he⟩
        · exact absurd hy (halone y hb e')
        · obtain ⟨known, rfl⟩ := of_passes he
          obtain ⟨rfl, hplain⟩ := hraw
          obtain ⟨hvalue, houtside, -⟩ := EvalFault.ne_of_isPlain hplain
          injection he.trans (passes_fault none) with _ hplace
          exact ⟨hplace, houtside, fun hc => absurd hc hvalue⟩
        · injection he with hcause hplace
          subst hcause
          rw [hwork]
          exact ⟨hplace, nofun, fun _ => ⟨n, rfl, hsignal⟩⟩
      obtain ⟨rfl, houtside, hsignal⟩ := hplace
      refine ⟨[], hxs, ⟨⟨x, [], rfl, halone, houtside, hsignal⟩, ?_, ?_⟩, rfl⟩
      · exact List.forall_mem_singleton.2 (.inr h)
      · exact List.forall_mem_singleton.2 fun _ => h

/-- A cause that an activation fails for is never that a bound was exhausted. -/
theorem Activation.Fails.ne_stackExhausted (h : x.Fails env (.fault cause place)) :
    cause ≠ .stackExhausted := by
  induction x using (Begins.wellFounded env).induction generalizing place with
  | _ x ih =>
    rcases h.origin with ⟨e', hcomes, he⟩ | ⟨n, -, -, he⟩
    · obtain ⟨known, rfl⟩ := of_passes he
      rcases hcomes with ⟨y, hb, hy⟩ | hraw
      · exact ih y hb hy
      · exact (EvalFault.ne_of_isPlain hraw.2).2.2
    · cases he
      exact nofun

-- ================================================================ programs

theorem program_eq (hk : env.root.kind = .sourceFile) :
    program env = interfaces env (declarations env.root) >>= fun _ =>
      topLevel env (enter env env.config.maxCallDepth) (mainStatements env.root) := by
  unfold program declarations mainStatements
  rw [expectKind_of_eq hk, Run.pure_bind]
  rcases env.root.named with _ | ⟨first, rest⟩
  · rfl
  · by_cases hfirst : first.kind = .interfaces
    · simp only [if_pos hfirst]
    · simp only [if_neg hfirst]
      rfl

theorem program_misshapen (hk : env.root.kind ≠ .sourceFile) :
    program env = misshapen NodeKind.sourceFile.text env.root.kind := by
  unfold program
  rw [expectKind_of_ne hk]
  rfl

omit [Callable φ] [DecidableEq φ] in
theorem interfaces_split (n : Node) (rest : List Node) :
    interfaces env (n :: rest) = interfaces env [n] >>= fun _ => interfaces env rest := by
  rw [interfaces, interfaces, Run.bind_assoc]
  rfl

omit [Callable φ] [DecidableEq φ] in
/-- Declarations fail as the first of them that fails. -/
theorem interfaces_fails {ns : List Node} {s : RunState φ}
    (h : (interfaces env ns s).1 = .error e) :
    ∃ before n after t, ns = before ++ n :: after ∧ interfaces env before s = (.ok (), t) ∧
      (interfaces env [n] t).1 = .error e := by
  induction ns generalizing s with
  | nil => cases h
  | cons n rest ih =>
    rw [interfaces_split, bind_apply] at h
    rcases hn : interfaces env [n] s with ⟨e' | _, t⟩
    · rw [hn] at h
      refine ⟨[], n, rest, s, rfl, rfl, ?_⟩
      rw [hn]
      exact h
    · rw [hn] at h
      obtain ⟨before, m, after, u, rfl, hbefore, hm⟩ := ih h
      refine ⟨n :: before, m, after, u, rfl, ?_, hm⟩
      rw [interfaces_split, bind_apply, hn]
      exact hbefore

/-- Statements fail as the first of them that fails or ends in a return. -/
theorem topLevel_fails {call : Caller φ} {ns : List Node} {s : RunState φ}
    (h : (topLevel env call ns s).1 = .error e) :
    ∃ before n after t, ns = before ++ n :: after ∧ topLevel env call before s = (.ok (), t) ∧
      ((statement env call n t).1 = .error e ∨
        (statement env call n t).1 = .error .exhausted ∧
          e = .fault .stackExhausted (some (env.place n)) ∨
        (∃ v u, statement env call n t = (.ok (.returned v), u)) ∧
          e = .fault .returnOutsideFunction (some (env.place n))) := by
  induction ns generalizing s with
  | nil => cases h
  | cons n rest ih =>
    rw [topLevel, bind_apply] at h
    unfold blamed at h
    rcases hn : statement env call n s with ⟨e' | signal, t⟩
    · refine ⟨[], n, rest, s, rfl, rfl, ?_⟩
      rw [hn] at h ⊢
      cases e' with
      | exhausted =>
        cases h
        exact .inr (.inl ⟨rfl, rfl⟩)
      | fault cause place | abort cause =>
        cases h
        exact .inl rfl
    · rw [hn] at h
      cases signal with
      | returned v =>
        refine ⟨[], n, rest, s, rfl, rfl, ?_⟩
        cases h
        exact .inr (.inr ⟨⟨v, t, hn⟩, rfl⟩)
      | value v =>
        obtain ⟨before, m, after, u, rfl, hbefore, hm⟩ := ih h
        refine ⟨n :: before, m, after, u, rfl, ?_, hm⟩
        rw [topLevel, bind_apply]
        unfold blamed
        rw [hn]
        exact hbefore

/-- A program fails as something fails that it begins, unless one of its
statements exhausts a bound or ends in a return. -/
theorem program_fails (hk : env.root.kind = .sourceFile) (h : (program env {}).1 = .error e) :
    (∃ x, Top env x ∧ x.Fails env e) ∨
      (∃ x n, Top env x ∧ x.Fails env .exhausted ∧ x.work.node? = some n ∧
        e = .fault .stackExhausted (some (env.place n))) ∨
      ∃ n s, Top env ⟨env.config.maxCallDepth, .statement n, s⟩ ∧
        (∃ v t, statement env (enter env env.config.maxCallDepth) n s = (.ok (.returned v), t)) ∧
        e = .fault .returnOutsideFunction (some (env.place n)) := by
  rw [program_eq hk, bind_apply] at h
  rcases hi : interfaces env (declarations env.root) {} with ⟨e' | _, s⟩
  · rw [hi] at h
    cases h
    obtain ⟨before, n, after, t, hd, hbefore, hn⟩ :=
      interfaces_fails (by rw [hi] : (interfaces env (declarations env.root) {}).1 = .error e)
    exact .inl ⟨_, .declaration hk hd hbefore, hn⟩
  · rw [hi] at h
    obtain ⟨before, n, after, t, hm, hbefore, hn⟩ := topLevel_fails h
    have htop : Top env ⟨env.config.maxCallDepth, .statement n, t⟩ := .statement hk hi hm hbefore
    rcases hn with hn | ⟨hn, he⟩ | ⟨hsignal, he⟩
    · exact .inl ⟨_, htop, hn⟩
    · exact .inr (.inl ⟨_, n, htop, hn, rfl, he⟩)
    · exact .inr (.inr ⟨n, t, htop, hsignal, he⟩)

/-- What the program begins is the evaluation of a node. -/
theorem Top.node? (h : Top env x) : ∃ n, x.work.node? = some n := by
  cases h <;> exact ⟨_, rfl⟩

/-- What a program is blamed on: what raised the cause, at the innermost node
in progress, or a statement that ended in a return. -/
theorem program_blames (hk : env.root.kind = .sourceFile)
    (h : (program env {}).1 = .error (.fault cause place)) (hcause : cause ≠ .stackExhausted) :
    (∃ line n, InProgress env line ∧ Raised env cause line ∧ innermost line = some n ∧
        place = some (env.place n)) ∨
      cause = .returnOutsideFunction ∧
        ∃ n s, Top env ⟨env.config.maxCallDepth, .statement n, s⟩ ∧
          (∃ v t, statement env (enter env env.config.maxCallDepth) n s =
            (.ok (.returned v), t)) ∧
          place = some (env.place n) := by
  rcases program_fails hk h with ⟨x, htop, hx⟩ | ⟨x, n, -, -, -, he⟩ | ⟨n, s, htop, hsignal, he⟩
  · obtain ⟨line, hline, hraised, hplace⟩ := hx.raised (.top htop)
    obtain ⟨n, hn⟩ : ∃ n, innermost (line ++ [x]) = some n := by
      obtain ⟨n, hn⟩ := htop.node?
      rw [innermost_concat, hn]
      cases innermost line <;> exact ⟨_, rfl⟩
    rw [hn] at hplace
    exact .inl ⟨_, n, hline, hraised, hn, hplace⟩
  · cases he
    exact absurd rfl hcause
  · cases he
    exact .inr ⟨rfl, n, s, htop, hsignal, rfl⟩

/-- Without bounds a program exhausts none. -/
theorem program_unbounded (hbounds : env.bounds = {}) :
    (program env {}).1 ≠ .error .exhausted ∧
      ∀ place, (program env {}).1 ≠ .error (.fault .stackExhausted place) := by
  by_cases hk : env.root.kind = .sourceFile
  · refine ⟨fun h => ?_, fun place h => ?_⟩
    · rcases program_fails hk h with ⟨x, -, hx⟩ | ⟨x, -, -, hx, -⟩ | ⟨n, s, -, -, he⟩
      · exact hx.bounded hbounds
      · exact hx.bounded hbounds
      · cases he
    · rcases program_fails hk h with ⟨x, -, hx⟩ | ⟨x, -, -, hx, -⟩ | ⟨n, s, -, -, he⟩
      · exact hx.ne_stackExhausted rfl
      · exact hx.bounded hbounds
      · cases he
  · rw [program_misshapen hk]
    exact ⟨nofun, nofun⟩

end SamScript.Eval

namespace SamScript

/-- A text that fails to run because of its text has no tree. -/
theorem error_of_runSource {r : Surroundings} {source : String} {e : SourceError}
    (h : runSource r source = .error (.source e)) :
    Tree.ofSource r.bounds r.file source = .error e := by
  unfold runSource at h
  split at h
  · rename_i e' he
    cases h
    exact he
  · split at h
    · cases h
    · cases h

/-- One that fails otherwise has a tree, and the failure is that of the tree's
evaluation. -/
theorem evaluate_of_runSource {r : Surroundings} {source : String} {e : Failure}
    (h : runSource r source = .error (.eval e)) :
    ∃ tree, Tree.ofSource r.bounds r.file source = .ok tree ∧
      (evaluate r tree.root tree.source).1 = .error e := by
  unfold runSource at h
  split at h
  · cases h
  · rename_i tree htree
    refine ⟨tree, htree, ?_⟩
    split at h
    · cases h
    · rename_i e' s he
      cases h
      rw [he]

end SamScript
