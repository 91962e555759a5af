/-
Functions by number. Where a function is the number of its lambda among the
lambdas of the tree, together with its parameters (`Ordinal`), nothing about
it tells where the text has it. On a parsed tree a run with ranges of bytes
mirrors the run with numbers (`evaluate_eq_ordinals`): no two bodies share a
range, so a range and a number stand for each other.
-/
import SamScript.Proofs.Eval.Closure

namespace SamScript

/-- A function by the number of its lambda. -/
structure Ordinal where
  index : Nat
  parameters : List String
  deriving DecidableEq

instance : Callable Ordinal := ⟨Ordinal.parameters⟩

namespace Tree

-- ================================================================ numbers

/-- The lambdas of a tree, in the order of the text. -/
def lambdas (t : Tree) : List Node :=
  t.root.preorder.filter Node.isLambda

/-- The body of a lambda, by the number of the lambda. -/
def body? (t : Tree) (index : Nat) : Option Node :=
  t.lambdas[index]?.bind (·.child? .body)

/-- A function with a body, by the number of the lambda that has this
body. -/
def ordinal (t : Tree) (body : Node) (parameters : List String) : Ordinal :=
  ⟨t.lambdas.findIdx fun n => n.bodyRange? = some body.range, parameters⟩

/-- The range of bytes that stands for a numbered function. -/
def function (t : Tree) (o : Ordinal) : FunctionRef :=
  let range := (t.lambdas[o.index]?.bind Node.bodyRange?).getD (0, 0)
  ⟨range.1, range.2, o.parameters⟩

/-- Whether the tree has a lambda of that number. -/
def HasLambda (t : Tree) (o : Ordinal) : Prop :=
  o.index < t.lambdas.length

namespace WellFormed

variable {t : Tree} {n body : Node} {i : Nat}

/-- A numbered lambda has its body in the tree. -/
theorem body?_eq (h : t.WellFormed) (hi : i < t.lambdas.length) :
    ∃ body ∈ t.root.preorder, t.body? i = some body ∧ body.Is .statementBlock ∧
      t.lambdas[i]?.bind Node.bodyRange? = some body.range := by
  have hmem := List.getElem_mem hi
  obtain ⟨hn, hk⟩ := List.mem_filter.1 hmem
  obtain ⟨body, hbody, hblock, hbmem⟩ := h.body_of_lambda hn (Node.isLambda_iff.1 hk)
  have hat : t.lambdas[i]? = some t.lambdas[i] := List.getElem?_eq_getElem hi
  refine ⟨body, hbmem, ?_, hblock, ?_⟩
  · rw [Tree.body?, hat, Option.bind_some, hbody]
  · rw [hat, Option.bind_some, Node.bodyRange?, hbody]
    rfl

/-- Lambdas whose bodies have one range have one number. -/
theorem index_eq (h : t.WellFormed) {j : Nat} (hi : i < t.lambdas.length)
    (hj : j < t.lambdas.length)
    (he : t.lambdas[i].bodyRange? = t.lambdas[j].bodyRange?) : i = j := by
  have hapart := List.pairwise_iff_getElem.1 h.bodies_apart
  rcases Nat.lt_trichotomy i j with hlt | heq | hlt
  · exact absurd he (hapart i j hi hj hlt)
  · exact heq
  · exact absurd he.symm (hapart j i hj hi hlt)

/-- The number of a lambda is its place among the lambdas. -/
theorem ordinal_eq (h : t.WellFormed) (hi : i < t.lambdas.length)
    (hbody : t.lambdas[i].child? .body = some body) (parameters : List String) :
    t.ordinal body parameters = ⟨i, parameters⟩ := by
  have hrange : t.lambdas[i].bodyRange? = some body.range := by
    rw [Node.bodyRange?, hbody]
    rfl
  have hfound : (t.lambdas.findIdx fun n => n.bodyRange? = some body.range) = i := by
    refine (List.findIdx_eq hi).2 ⟨by simpa using hrange, fun j hj => ?_⟩
    rw [decide_eq_false_iff_not]
    intro he
    have := h.index_eq (Nat.lt_trans hj hi) hi (he.trans hrange.symm)
    omega
  rw [ordinal, hfound]

/-- A lambda of the tree has a number. -/
theorem exists_index (hn : n ∈ t.root.preorder) (hk : n.Is .lambdaExpression) :
    ∃ (i : Nat) (hi : i < t.lambdas.length), t.lambdas[i] = n :=
  List.getElem_of_mem (List.mem_filter.2 ⟨hn, Node.isLambda_iff.2 hk⟩)

/-- The range of a numbered function is that of its body. -/
theorem function_eq (h : t.WellFormed) {o : Ordinal} (ho : t.HasLambda o)
    (hbody : t.body? o.index = some body) :
    t.function o = ⟨body.extent.startByte, body.extent.endByte, o.parameters⟩ := by
  obtain ⟨body', -, hbody', -, hrange⟩ := h.body?_eq ho
  cases hbody.symm.trans hbody'
  rw [function, hrange]
  rfl

end WellFormed

end Tree

-- ============================================================= evaluation

/-- The environment of a tree where functions are numbers. -/
def Surroundings.ordinalEnv (r : Surroundings) (t : Tree) : Env Ordinal :=
  (r.env t.root t.source).keeping t.ordinal fun o => t.body? o.index

namespace Tree.WellFormed

variable {t : Tree}

/-- The evaluator fits a parsed tree where functions are numbers. -/
theorem ordinal_fit (h : t.WellFormed) (r : Surroundings) :
    Eval.Fit (r.ordinalEnv t) fun v => ∀ o, v = .function o → t.HasLambda o where
  shaped := h.shaped
  readable := h.readable
  marked := h.marked
  plain := by constructor <;> (intros; contradiction)
  lambda n hn hk body hbody parameters _ o ho := by
    obtain ⟨i, hi, rfl⟩ := exists_index hn hk
    cases ho
    show (t.ordinal body parameters).index < _
    rw [h.ordinal_eq hi hbody]
    exact hi
  body o ho := by
    obtain ⟨body, hmem, hbody, hblock, -⟩ := h.body?_eq (ho o rfl)
    exact ⟨body, hmem, hbody, hblock⟩
  entry _ _ _ _ _ ho := nomatch ho

/-- Ranges of bytes do for the numbers of a parsed tree. -/
theorem ordinal_keeping (h : t.WellFormed) (r : Surroundings) :
    Eval.Keeping (r.ordinalEnv t) (fun v => ∀ o, v = .function o → t.HasLambda o) t.function
      (r.env t.root t.source).close (r.env t.root t.source).body? where
  parameters _ := rfl
  separates o p ho hp he := by
    obtain ⟨body, -, hbody, -, hrange⟩ := h.body?_eq (ho o rfl)
    obtain ⟨body', -, hbody', -, hrange'⟩ := h.body?_eq (hp p rfl)
    rw [h.function_eq (ho o rfl) hbody, h.function_eq (hp p rfl) hbody'] at he
    obtain ⟨hstart, hstop, hparameters⟩ := FunctionRef.mk.inj he
    have hindex : o.index = p.index := by
      refine h.index_eq (ho o rfl) (hp p rfl) ?_
      have hsame : body.range = body'.range := Prod.ext hstart hstop
      rw [List.getElem?_eq_getElem (ho o rfl), Option.bind_some] at hrange
      rw [List.getElem?_eq_getElem (hp p rfl), Option.bind_some] at hrange'
      rw [hrange, hrange', hsame]
    cases o
    cases p
    cases hindex
    cases hparameters
    rfl
  closed n hn hk body hbody parameters := by
    obtain ⟨i, hi, rfl⟩ := exists_index hn hk
    show _ = t.function (t.ordinal body parameters)
    rw [h.ordinal_eq hi hbody, h.function_eq (o := ⟨i, parameters⟩) hi]
    · rfl
    · rw [Tree.body?, List.getElem?_eq_getElem hi, Option.bind_some, hbody]
  found o ho := by
    obtain ⟨body, hmem, hbody, hblock, -⟩ := h.body?_eq (ho o rfl)
    show t.root.descendant? (t.function o).start (t.function o).stop = t.body? o.index
    rw [h.function_eq (ho o rfl) hbody, hbody]
    exact h.descendant?_block hmem hblock

/-- A run of a parsed tree is a run with numbers for functions, each of them
the number of a lambda of the tree. -/
theorem evaluate_eq_ordinals (h : t.WellFormed) (r : Surroundings) :
    let numbered := Eval.program (r.ordinalEnv t) {}
    evaluate r t.root t.source = (numbered.1, numbered.2.map t.function) ∧
      ∀ frame ∈ numbered.2.scopes.stack, ∀ p ∈ frame, ∀ o, .function o ∈ p.2.parts →
        t.HasLambda o := by
  intro numbered
  have hnone : ({} : Scopes Ordinal).All fun v => ∀ o, v = .function o → t.HasLambda o :=
    List.forall_mem_singleton.2 fun p hp => nomatch hp
  obtain ⟨hsame, hscopes, -⟩ := Eval.mirrors_program (h.ordinal_fit r) (h.ordinal_keeping r)
    h.root {} hnone
  have hid : numbered.1.map id = numbered.1 := by
    cases numbered.1 <;> rfl
  refine ⟨hsame.trans (congrArg (·, numbered.2.map t.function) hid), ?_⟩
  exact fun frame hframe p hp o ho => hscopes frame hframe p hp _ ho o rfl

end Tree.WellFormed

end SamScript
