/-
What values there are in a run. Whole numbers come from literals, operators,
JSON texts and exit statuses, functions from lambdas alone, foreign functions
from declarations alone, objects from JSON texts and from the outcomes of
programs; whichever way a value came, and however deep it lies in another one,
`WellFormed` says what it can be. It is an invariant of runs, so it holds of
every value of every frame in every state of every run.
-/
import SamScript.Proofs.Eval.Course
import SamScript.Proofs.Eval.Provenance

namespace SamScript

variable {φ : Type} {env : Env φ}

-- ================================================================== names

/-- What a node's bytes were read as is what they spell. -/
theorem Env.decode?_of_text {n : Node} {text : String} (h : env.text n = pure text) :
    Utf8.decode? (n.bytes env.source) = .ok text.toList := by
  unfold Env.text at h
  rcases hcs : Utf8.decode? (n.bytes env.source) with flaw | cs
  · rw [hcs] at h
    exact absurd h Run.fail_ne_pure
  · rw [hcs] at h
    cases Run.pure_injective h
    rw [String.toList_ofList]

/-- The names that a lambda's parameters were read as, in their order. -/
theorem Eval.spelled_of_parameterNames {ns : List Node} {names : List String}
    (h : Eval.parameterNames env ns = pure names) :
    ns.map (fun p => Utf8.decode? (p.bytes env.source)) = names.map fun name => .ok name.toList := by
  induction ns generalizing names with
  | nil =>
    cases Run.pure_injective h
    rfl
  | cons n rest ih =>
    rw [Eval.parameterNames] at h
    obtain ⟨m, hm, h⟩ := (settled_expectKind _ _).of_bind_eq_pure h
    obtain ⟨hn, -⟩ := of_expectKind hm
    cases hn
    obtain ⟨name, hname, h⟩ := (env.settled_text n).of_bind_eq_pure h
    obtain ⟨more, hmore, h⟩ := (Eval.settled_parameterNames env rest).of_bind_eq_pure h
    cases Run.pure_injective h
    rw [List.map_cons, List.map_cons, Env.decode?_of_text hname, ih hmore]

-- ============================================================ the invariant

/-- Whether a function is the body of a lambda of a tree, by the range of its
bytes, with the names of the lambda's parameters in their order. -/
def Node.OwnsFunction (root : Node) (source : List UInt8) (f : FunctionRef) : Prop :=
  ∃ n ∈ root.preorder, n.kind = .lambdaExpression ∧ n.Binds source f.parameters ∧
    ∃ body, n.child? .body = some body ∧ body.kind = .statementBlock ∧
      f.start = body.extent.startByte ∧ f.stop = body.extent.endByte

namespace Surroundings

variable (r : Surroundings) (root : Node) (source : List UInt8)

/-- What a value of a run of a tree can be. -/
def WellFormed : Value → Prop
  | .int n => -9223372036854775808 ≤ n.toInt ∧ n.toInt ≤ 9223372036854775807
  | .object fields => (Bindings.names fields).Nodup
  | .function f => root.OwnsFunction source f
  | .foreign template => r.Registers root source template
  | .float _ | .string _ | .array _ | .undefined => True

variable {r root source}

theorem plain_wellFormed : Value.Plain (r.WellFormed root source) where
  int n := ⟨Int64.le_toInt n, Int.le_sub_one_of_lt (Int64.toInt_lt n)⟩
  float _ := trivial
  string _ := trivial
  array _ := trivial
  object _ h := h
  undefined := trivial

/-- That every value is well formed is an invariant of runs. -/
theorem wellFormed_invariant :
    Eval.Invariant (r.env root source) (r.WellFormed root source) fun _ => True where
  body _ _ h := Node.mem_preorder_of_descendant? h
  undefined := plain_wellFormed.all_undefined
  string := plain_wellFormed.all_string
  number := plain_wellFormed.all_number?
  array h := Value.all_array.2 ⟨plain_wellFormed.array _, h⟩
  apply _ _ h := plain_wellFormed.all_apply h
  answer h := answer_ownForeign plain_wellFormed h
  lambda n hn hk body hbody hblock _ hnames :=
    ⟨n, hn, hk, Eval.spelled_of_parameterNames hnames, body, hbody, hblock, rfl, rfl⟩
  interface_ n hn hk path hpath name hname _ file hfile word hword _ hcommand :=
    ⟨n, hn, hk, path, hpath, name, hname, file, hfile, word, hword, hcommand⟩
  template _ _ _ := trivial
  program _ _ _ _ _ _ _ _ _ _ _ _ _ _ _ _ := trivial

end Surroundings

-- ============================================================ the theorem

/-- In every state of every run, every value of every frame, and every value
nested in one, is well formed: a whole number lies in 64 bits, a function is
the body of a lambda of the tree with its parameters in order, a foreign
function is the template that a manifest had for an interface declaration of
the tree, and an object has every name once. -/
theorem every_value_is_well_formed (r : Surroundings) (root : Node) (source : List UInt8) :
    ∀ s, Eval.Visited (r.env root source) s →
      ∀ frame ∈ s.scopes.frames, ∀ p ∈ frame, ∀ v ∈ p.2.parts, r.WellFormed root source v := by
  intro s hs frame hframe
  have hall := (Surroundings.wellFormed_invariant.visited hs).scopes
  rw [Scopes.frames_eq, List.mem_reverse] at hframe
  exact hall frame hframe

/-- A program that ends with a foreign function, a function, a wrapped number
in an array and what a process answered, a name in it twice. -/
theorem every_value_is_well_formed_four_kinds :
    let r : Surroundings :=
      { host := ⟨fun _ => .ok (Utf8.encode "\x7b\"g\": \"echo\"\x7d".toList), fun _ _ =>
          .ok ⟨Utf8.encode "\x7b\"a\": 1, \"a\": [2]\x7d".toList, [], 0⟩⟩ }
    let source := "interface \"m\" load g; let f = (a) => \x7b return a; \x7d; " ++
      "let x = [9223372036854775807 + 1]; let o = g();"
    ∃ tree, Tree.ofSource {} none source = .ok tree ∧
      ∃ s, Eval.Visited (r.env tree.root tree.source) s ∧
        s.scopes.globals.names = ["g", "f", "x", "o"] ∧
        ∀ frame ∈ s.scopes.frames, ∀ p ∈ frame, ∀ v ∈ p.2.parts,
          r.WellFormed tree.root tree.source v := by
  intro r source
  have hrun : (Tree.ofSource {} none source).toOption.any
      (fun tree => (evaluate r tree.root tree.source).2.scopes.globals.names =
        ["g", "f", "x", "o"]) = true := by
    decide +kernel
  rcases htree : Tree.ofSource {} none source with e | tree
  · rw [htree] at hrun
    cases hrun
  · rw [htree] at hrun
    refine ⟨tree, rfl, (evaluate r tree.root tree.source).2, .stop, of_decide_eq_true hrun, ?_⟩
    exact every_value_is_well_formed r tree.root tree.source _ .stop

end SamScript
