/-
Byte ranges against closures. In the reference a function is a `Closure`: it
holds the block of its lambda, and a call runs that block, with no look at
the tree. What a program runs with is a range of bytes (`Closure.ref`), and
the body is looked up at every call. On a parsed tree the second way mirrors
the first one, step by step: a block is found again by its range, and no two
lambdas share one.
-/
import SamScript.Proofs.Eval.Simulation

namespace SamScript

-- ============================================================= closures

/-- A function that holds its body. -/
structure Closure where
  body : Node
  parameters : List String
  deriving DecidableEq

instance : Callable Closure := ⟨Closure.parameters⟩

/-- The range of bytes that stands for a closure. -/
def Closure.ref (c : Closure) : FunctionRef :=
  ⟨c.body.extent.startByte, c.body.extent.endByte, c.parameters⟩

/-- The environment of a tree over some bytes where functions hold their
bodies. -/
def Surroundings.closureEnv (r : Surroundings) (root : Node) (source : List UInt8) :
    Env Closure :=
  (r.env root source).keeping Closure.mk fun c => some c.body

/-- Evaluates a tree over some bytes with functions that hold their bodies. -/
def evaluateClosures (r : Surroundings) (root : Node) (source : List UInt8) :
    Except Failure Unit × RunState Closure :=
  Eval.program (r.closureEnv root source) {}

-- ========================================================== parsed trees

/-- Whether a closure is what a lambda of the tree comes to. -/
def Tree.Closes (t : Tree) (c : Closure) : Prop :=
  ∃ n ∈ t.root.preorder, n.Is .lambdaExpression ∧ n.child? .body = some c.body ∧
    n.Binds t.source c.parameters

namespace Tree.WellFormed

variable {t : Tree} {c d : Closure}

/-- The body of a closure is a block of the tree. -/
theorem block_of_closes (h : t.WellFormed) (hc : t.Closes c) :
    c.body ∈ t.root.preorder ∧ c.body.Is .statementBlock := by
  obtain ⟨n, hn, hk, hbody, -⟩ := hc
  obtain ⟨body, hbody', hblock, hmem⟩ := h.body_of_lambda hn hk
  cases hbody.symm.trans hbody'
  exact ⟨hmem, hblock⟩

/-- A closure's body is found again by its range. -/
theorem found_of_closes (h : t.WellFormed) (hc : t.Closes c) :
    t.root.descendant? c.ref.start c.ref.stop = some c.body := by
  obtain ⟨hmem, hblock⟩ := h.block_of_closes hc
  exact h.descendant?_block hmem hblock

/-- Closures of one range are one closure. -/
theorem eq_of_ref (h : t.WellFormed) (hc : t.Closes c) (hd : t.Closes d) (he : c.ref = d.ref) :
    c = d := by
  have hfound := h.found_of_closes hc
  rw [he, h.found_of_closes hd] at hfound
  have hbody : d.body = c.body := Option.some.inj hfound
  have hparameters : c.parameters = d.parameters := congrArg FunctionRef.parameters he
  cases c
  cases d
  cases hbody
  cases hparameters
  rfl

/-- The evaluator fits a parsed tree where functions hold their bodies. -/
theorem closure_fit (h : t.WellFormed) (r : Surroundings) :
    Eval.Fit (r.closureEnv t.root t.source) fun v => ∀ c, v = .function c → t.Closes c where
  shaped := h.shaped
  readable := h.readable
  marked := h.marked
  plain := by constructor <;> (intros; contradiction)
  lambda n hn hk body hbody parameters hbinds c hc := by
    cases hc
    exact ⟨n, hn, hk, hbody, hbinds⟩
  body c hc := by
    obtain ⟨hmem, hblock⟩ := h.block_of_closes (hc c rfl)
    exact ⟨c.body, hmem, rfl, hblock⟩
  entry _ _ _ _ _ hc := nomatch hc

/-- Ranges of bytes do for the closures of a parsed tree. -/
theorem closure_keeping (h : t.WellFormed) (r : Surroundings) :
    Eval.Keeping (r.closureEnv t.root t.source) (fun v => ∀ c, v = .function c → t.Closes c)
      Closure.ref (r.env t.root t.source).close (r.env t.root t.source).body? where
  parameters _ := rfl
  separates c d hc hd he := h.eq_of_ref (hc c rfl) (hd d rfl) he
  closed _ _ _ _ _ _ := rfl
  found c hc := h.found_of_closes (hc c rfl)

end Tree.WellFormed

-- ============================================================ the theorem

/-- Evaluation of a parsed tree with ranges of bytes comes to what it comes to
with closures, whatever the configuration, the files and the programs
outside: it ends alike, with the same failure at the same place if it fails,
and leaves the same frames, name by name, with a range for every closure.
Each of those closures is the one of a lambda, and the ranges tell lambdas
apart. -/
theorem byte_ranges_refine_closures {bounds : Bounds} {file : Option String} {source : String}
    {tree : Tree} (h : Tree.ofSource bounds file source = .ok tree) (r : Surroundings) :
    let reference := evaluateClosures r tree.root tree.source
    evaluate r tree.root tree.source = (reference.1, reference.2.map Closure.ref) ∧
    (evaluate r tree.root tree.source).2.scopes.frames.map Bindings.names =
      reference.2.scopes.frames.map Bindings.names ∧
    (∀ frame ∈ reference.2.scopes.stack, ∀ p ∈ frame, ∀ c, .function c ∈ p.2.parts →
      tree.Closes c) ∧
    (tree.root.preorder.filter Node.isLambda).Pairwise fun a b => a.bodyRange? ≠ b.bodyRange? := by
  intro reference
  have hwell := Tree.ofSource_wellFormed h
  have hnone : ({} : Scopes Closure).All fun v => ∀ c, v = .function c → tree.Closes c :=
    List.forall_mem_singleton.2 fun p hp => nomatch hp
  obtain ⟨hsame, hscopes, -⟩ := Eval.mirrors_program (hwell.closure_fit r)
    (hwell.closure_keeping r) hwell.root {} hnone
  have hid : reference.1.map id = reference.1 := by
    cases reference.1 <;> rfl
  have hrun : evaluate r tree.root tree.source = (reference.1, reference.2.map Closure.ref) :=
    hsame.trans (congrArg (·, reference.2.map Closure.ref) hid)
  refine ⟨hrun, ?_, fun frame hframe p hp c hc => ?_, hwell.bodies_apart⟩
  · rw [hrun]
    exact Scopes.names_map reference.2.scopes
  · exact hscopes frame hframe p hp _ hc c rfl

/-- A program that keeps two functions, calls one of them and compares them,
where no file can be read and nothing can be started. -/
theorem byte_ranges_refine_closures_comparison :
    ∃ tree, Tree.ofSource {} none
        "let f = (x) => { return x; }; let g = (x) => { return x; }; f(f == g);" = .ok tree ∧
      let r : Surroundings :=
        { host := ⟨fun _ => .error .nullByte, fun _ _ => .error .badVariable⟩ }
      let reference := evaluateClosures r tree.root tree.source
      evaluate r tree.root tree.source = (reference.1, reference.2.map Closure.ref) := by
  have hparsed : (Tree.ofSource {} none
      "let f = (x) => { return x; }; let g = (x) => { return x; }; f(f == g);").isOk = true := by
    decide +kernel
  obtain ⟨tree, htree⟩ := Tree.exists_of_isOk hparsed
  exact ⟨tree, htree, (byte_ranges_refine_closures htree _).1⟩

end SamScript
