/-
Safety of parsed programs. A parsed tree is one that the evaluator fits
(`Tree.WellFormed.fit`), so a program on it is mirrored by itself, and what
that says beyond the equation is safety: evaluation never meets a node it
does not expect, an operator it does not know or bytes that are no text, and
every function that is alive leads back to a block.
-/
import SamScript.Proofs.Eval.Simulation

namespace SamScript

/-- Whether the range of a function leads back to a block of the tree. -/
def Tree.Leads (t : Tree) (f : FunctionRef) : Prop :=
  ∃ block ∈ t.root.preorder, t.root.descendant? f.start f.stop = some block ∧
    block.Is .statementBlock

namespace Tree.WellFormed

variable {t : Tree}

/-- The body of every lambda is a block that its range leads back to. -/
theorem leads_of_lambda (h : t.WellFormed) {n body : Node} (hn : n ∈ t.root.preorder)
    (hk : n.Is .lambdaExpression) (hbody : n.child? .body = some body)
    (parameters : List String) :
    t.Leads ⟨body.extent.startByte, body.extent.endByte, parameters⟩ := by
  obtain ⟨body', hbody', hblock, hmem⟩ := h.body_of_lambda hn hk
  cases hbody.symm.trans hbody'
  exact ⟨body, hmem, h.descendant?_block hmem hblock, hblock⟩

/-- The evaluator fits a parsed tree, in any surroundings. -/
theorem fit (h : t.WellFormed) (r : Surroundings) :
    Eval.Fit (r.env t.root t.source) fun v => ∀ f, v = .function f → t.Leads f where
  shaped := h.shaped
  readable := h.readable
  marked := h.marked
  plain := by constructor <;> (intros; contradiction)
  lambda n hn hk body hbody parameters _ f hf := by
    cases hf
    exact h.leads_of_lambda hn hk hbody parameters
  body f hf := by
    obtain ⟨body, hmem, hfound, hblock⟩ := hf f rfl
    exact ⟨body, hmem, hfound, hblock⟩
  entry _ _ _ _ _ hf := nomatch hf

end Tree.WellFormed

/-- Evaluation of a parsed tree reaches none of the evaluator's defensive
failures, whatever the configuration, the files and the programs outside:
the only E401 is the integer literal that is too large, and there is no E411.
Every function that is alive when the run ends, however it ends, leads back
to a block, and so does whatever a lambda of the tree comes to. -/
theorem parsed_programs_evaluate_safely {bounds : Bounds} {file : Option String}
    {source : String} {tree : Tree} (h : Tree.ofSource bounds file source = .ok tree)
    (r : Surroundings) :
    (∀ e, (evaluate r tree.root tree.source).1 = .error e → e.isDefensive = false) ∧
    (∀ cause place, (evaluate r tree.root tree.source).1 = .error (.fault cause place) →
      cause.code ≠ "E411" ∧ (cause.code = "E401" → ∃ text, cause = .integerTooLarge text)) ∧
    (∀ frame ∈ (evaluate r tree.root tree.source).2.scopes.stack, ∀ p ∈ frame,
      ∀ f, .function f ∈ p.2.parts → tree.Leads f) ∧
    ∀ n ∈ tree.root.preorder, n.Is .lambdaExpression → ∃ body, n.child? .body = some body ∧
      ∀ parameters, tree.Leads ⟨body.extent.startByte, body.extent.endByte, parameters⟩ := by
  have hwell := Tree.ofSource_wellFormed h
  have hnone : ({} : Scopes).All fun v => ∀ f, v = .function f → tree.Leads f :=
    List.forall_mem_singleton.2 fun p hp => nomatch hp
  obtain ⟨-, hscopes, houtcome⟩ := Eval.mirrors_program (hwell.fit r) (.refl _ _) hwell.root {} hnone
  have hsafe : ∀ e, (evaluate r tree.root tree.source).1 = .error e → e.isDefensive = false := by
    intro e he
    unfold evaluate at he
    rw [he] at houtcome
    exact houtcome
  refine ⟨hsafe, fun cause place he => ?_, fun frame hframe p hp f hf => ?_, fun n hn hk => ?_⟩
  · have hcause : cause.isDefensive = false := hsafe _ he
    cases cause with
    | integerTooLarge text => exact ⟨by simp [EvalFault.code], fun _ => ⟨text, rfl⟩⟩
    | shape | unknownOperator => cases hcause
    | _ => exact ⟨by simp [EvalFault.code], fun hcode => by simp [EvalFault.code] at hcode⟩
  · exact hscopes frame hframe p hp _ hf f rfl
  · obtain ⟨body, hbody, -, -⟩ := hwell.body_of_lambda hn hk
    exact ⟨body, hbody, hwell.leads_of_lambda hn hk hbody⟩

/-- A program that calls a function, where no file can be read and nothing
can be started. -/
theorem parsed_programs_evaluate_safely_call :
    ∃ tree, Tree.ofSource {} none "let f = (x) => { return x; }; f(1);" = .ok tree ∧
      let r : Surroundings :=
        { host := ⟨fun _ => .error .nullByte, fun _ _ => .error .badVariable⟩ }
      (∀ e, (evaluate r tree.root tree.source).1 = .error e → e.isDefensive = false) ∧
      ∀ frame ∈ (evaluate r tree.root tree.source).2.scopes.stack, ∀ p ∈ frame,
        ∀ f, .function f ∈ p.2.parts → tree.Leads f := by
  have hparsed : (Tree.ofSource {} none "let f = (x) => { return x; }; f(1);").isOk = true := by
    decide +kernel
  obtain ⟨tree, htree⟩ := Tree.exists_of_isOk hparsed
  obtain ⟨hsafe, -, hleads, -⟩ := parsed_programs_evaluate_safely htree
    { host := ⟨fun _ => .error .nullByte, fun _ _ => .error .badVariable⟩ }
  exact ⟨tree, htree, hsafe, hleads⟩

end SamScript
