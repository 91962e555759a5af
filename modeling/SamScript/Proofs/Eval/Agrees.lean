/-
Environments that agree. Evaluation of a node looks at nothing but the nodes below
it, where they are and what they spell, and at the bodies of functions. Where two
environments agree in these (`Eval.Agrees`), whatever their trees look like elsewhere,
evaluation is the same. So a tree is evaluated inside a larger one with more text
behind its own as it is on its own (`Tree.WellFormed.evaluate_inside`): its functions
are found again by their ranges, as blocks of the larger tree.
-/
import SamScript.Proofs.Eval.Abreast
import SamScript.Proofs.Eval.Blame
import SamScript.Proofs.Eval.Ordinal

namespace SamScript

open Run

namespace Eval

variable {φ : Type} {p : Node → Prop} {env env' : Env φ}

-- ============================================================ environments

/-- Whether two environments agree in all that evaluation of some nodes asks them
for. -/
structure Agrees (p : Node → Prop) (env env' : Env φ) : Prop where
  below : ∀ n, p n → ∀ c ∈ n.children, p c
  bounds : env'.bounds = env.bounds
  host : env'.host = env.host
  config : env'.config = env.config
  place : ∀ n, p n → env'.place n = env.place n
  text : ∀ n, p n → env'.text n = env.text n
  close : env'.close = env.close
  body : env'.body? = env.body?
  /-- The bodies of functions are among the nodes. -/
  inside : ∀ f b, env.body? f = some b → p b

namespace Agrees

theorem rel_child? {n : Node} {field : Field} {R : Node → Node → Prop}
    (h : ∀ c ∈ n.children, R c c) : Option.Rel R (n.child? field) (n.child? field) := by
  cases hc : n.child? field with
  | none => exact .none
  | some c => exact .some (h c (Node.mem_children_of_child? hc))

theorem launch [Callable φ] (h : Agrees p env env') (l : Foreign.Launch φ) :
    Run.launch env' l = Run.launch env l := by
  unfold Run.launch
  rw [h.bounds, h.host, h.config]

/-- Nodes are evaluated beside themselves. -/
theorem alongside (h : Agrees p env env') :
    Alongside (· = ·) (fun n m => m = n ∧ p n) env env' where
  near_self _ := rfl
  bounds := h.bounds
  entry _ _ := by rw [h.bounds, h.host, h.config]
  launch l := h.launch l
  body f := by
    rw [h.body]
    cases hb : env.body? f with
    | none => exact .none
    | some b => exact .some ⟨rfl, h.inside f b hb⟩
  kind hn := by rw [hn.1]
  isNamed hn := by rw [hn.1]
  field hn := by rw [hn.1]
  children {n m} hn := by
    rw [hn.1]
    exact List.forall₂_same.2 fun c hc => ⟨rfl, h.below n hn.2 c hc⟩
  place {n m} hn := by rw [hn.1, h.place n hn.2]
  text {n m} hn _ := by rw [hn.1, h.text n hn.2]
  operator {n m} hn _ := by
    unfold operatorText
    rw [hn.1]
    cases hop : n.children[1]? with
    | none => rfl
    | some op => exact h.text op (h.below n hn.2 op (List.mem_of_getElem? hop))
  access {n m} hn _ := by
    rw [hn.1]
    exact rel_child? fun c hc => h.text c (h.below n hn.2 c hc)
  declared {n m} hn _ := by
    rw [hn.1]
    exact rel_child? fun c hc => h.text c (h.below n hn.2 c hc)
  close {n m} hn _ := by
    rw [hn.1]
    exact rel_child? fun c hc => ⟨⟨rfl, h.below n hn.2 c hc⟩, by rw [h.close]⟩

theorem forall₂_self {ns : List Node} (hns : ∀ n ∈ ns, p n) :
    List.Forall₂ (fun n m => m = n ∧ p n) ns ns :=
  List.forall₂_same.2 fun n hn => ⟨rfl, hns n hn⟩

/-- Interface declarations are evaluated alike. -/
theorem interfaces_eq (h : Agrees p env env') {ns : List Node} (hns : ∀ n ∈ ns, p n) :
    interfaces env' ns = interfaces env ns :=
  (Parallel.eq (parallel_interfaces h.alongside (forall₂_self hns))).symm

variable [Callable φ] [DecidableEq φ]

/-- Statements are evaluated alike. -/
theorem topLevel_eq (h : Agrees p env env') {ns : List Node} (hns : ∀ n ∈ ns, p n) (free : Nat) :
    topLevel env' (enter env' free) ns = topLevel env (enter env free) ns := by
  have hcall : ParallelCalls (fun _ => False) (· = ·) (enter env free) (enter env' (free + 0)) :=
    parallel_enter h.alongside (.inl ⟨rfl, by rw [h.config]⟩) free
  exact (Parallel.eq (parallel_topLevel h.alongside hcall (forall₂_self hns))).symm

/-- A program comes to its declarations and statements in the environment that its own
agrees with, whatever the root there. -/
theorem program_eq (h : Agrees p env env') (hk : env'.root.kind = .sourceFile)
    (hdeclarations : ∀ n ∈ declarations env'.root, p n)
    (hstatements : ∀ n ∈ mainStatements env'.root, p n) :
    program env' = interfaces env (declarations env'.root) >>= fun _ =>
      topLevel env (enter env env.config.maxCallDepth) (mainStatements env'.root) := by
  rw [Eval.program_eq hk, h.interfaces_eq hdeclarations, h.topLevel_eq hstatements, h.config]

end Agrees

end Eval

-- ============================================================ larger trees

namespace Tree

/-- Whether a tree is inside another one, with more text behind its own: every node
below its root is one of the other tree, where it spells the same and is on the same
line. -/
structure Inside (t v : Tree) : Prop where
  mem : ∀ n ∈ Node.preorders t.root.children, n ∈ v.root.preorder
  bytes : ∀ n ∈ t.root.preorder, n.bytes v.source = n.bytes t.source
  line : ∀ n ∈ Node.preorders t.root.children,
    Lines.line? (Lines.split (Utf8.decodeLossy v.source)) (n.extent.startPoint.row + 1) =
      Lines.line? (Lines.split (Utf8.decodeLossy t.source)) (n.extent.startPoint.row + 1)

variable {t v : Tree}

theorem mem_below {n c : Node} (hn : n ∈ t.root.preorder) (hc : c ∈ n.children) :
    c ∈ Node.preorders t.root.children := by
  rw [Node.preorder_eq, List.mem_cons] at hn
  rcases hn with rfl | hn
  · exact Node.mem_preorders.2 ⟨c, hc, Node.mem_preorder_self c⟩
  · obtain ⟨m, hm, hnm⟩ := Node.mem_preorders.1 hn
    exact Node.mem_preorders.2 ⟨m, hm, Node.mem_preorder_child hnm hc⟩

theorem mem_root {n : Node} (hn : n ∈ Node.preorders t.root.children) : n ∈ t.root.preorder := by
  rw [Node.preorder_eq]
  exact List.mem_cons_of_mem _ hn

/-- The body of a function by number is below the root. -/
theorem mem_of_body? {i : Nat} {body : Node} (h : t.body? i = some body) :
    body ∈ Node.preorders t.root.children := by
  obtain ⟨n, hn, hbody⟩ := Option.bind_eq_some_iff.1 h
  have hmem := (List.mem_filter.1 (List.mem_of_getElem? hn)).1
  exact mem_below hmem (Node.mem_children_of_child? hbody)

/-- With functions by number a tree is evaluated over the longer text as over its
own. -/
theorem Inside.agrees (h : t.Inside v) (r : Surroundings) :
    Eval.Agrees (· ∈ Node.preorders t.root.children) (r.ordinalEnv t)
      (r.ordinalEnv ⟨t.root, v.source⟩) where
  below n hn c hc := mem_below (mem_root hn) hc
  bounds := rfl
  host := rfl
  config := rfl
  place n hn := by
    unfold Env.place
    exact congrArg (Place.mk _) (h.line n hn)
  text n hn := by
    unfold Env.text
    rw [show (r.ordinalEnv ⟨t.root, v.source⟩).source = v.source from rfl,
      h.bytes n (mem_root hn)]
    rfl
  close := rfl
  body := rfl
  inside f b hb := mem_of_body? hb

namespace WellFormed

/-- It stays well-formed. -/
theorem inside (h : t.WellFormed) (hin : t.Inside v) : WellFormed ⟨t.root, v.source⟩ where
  root := h.root
  ordered := h.ordered
  shaped := h.shaped
  readable n hn := by
    obtain ⟨text, htext⟩ := h.readable n hn
    exact ⟨text, by rw [hin.bytes n hn, htext]⟩
  marked n hn := by
    have hmarked := h.marked n hn
    unfold Node.Marked at hmarked ⊢
    rwa [hin.bytes n hn]
  bare := h.bare

/-- The body of a function of the smaller tree is found in the larger one. -/
theorem descendant?_inside (h : t.WellFormed) (h' : v.WellFormed) (hin : t.Inside v) {o : Ordinal}
    (ho : t.HasLambda o) :
    v.root.descendant? (t.function o).start (t.function o).stop = t.body? o.index := by
  obtain ⟨body, -, hbody, hblock, -⟩ := h.body?_eq ho
  rw [h.function_eq ho hbody, hbody]
  exact h'.descendant?_block (hin.mem body (mem_of_body? hbody)) hblock

theorem inside_keeping (h : t.WellFormed) (h' : v.WellFormed) (hin : t.Inside v)
    (r : Surroundings) :
    Eval.Keeping (r.ordinalEnv ⟨t.root, v.source⟩)
      (fun x => ∀ o, x = .function o → t.HasLambda o) t.function
      (r.env v.root v.source).close (r.env v.root v.source).body? where
  parameters := ((h.inside hin).ordinal_keeping r).parameters
  separates := ((h.inside hin).ordinal_keeping r).separates
  closed := ((h.inside hin).ordinal_keeping r).closed
  found o ho := h.descendant?_inside h' hin (ho o rfl)

/-- The functions that a run of the smaller tree leaves keep their bodies. -/
theorem functions_inside (h : t.WellFormed) (h' : v.WellFormed) (hin : t.Inside v)
    (r : Surroundings) : (evaluate r t.root t.source).2.scopes.All fun x =>
      ∀ f, x = .function f →
        v.root.descendant? f.start f.stop = t.root.descendant? f.start f.stop := by
  obtain ⟨hrun, hlambdas⟩ := h.evaluate_eq_ordinals r
  rw [hrun]
  refine Scopes.all_map.2 fun frame hframe p hp u hu f hf => ?_
  cases u with
  | function o =>
    cases hf
    have ho : t.HasLambda o := hlambdas frame hframe p hp o hu
    obtain ⟨body, hmem, hbody, hblock, -⟩ := h.body?_eq ho
    rw [h.descendant?_inside h' hin ho, h.function_eq ho hbody, hbody]
    exact (h.descendant?_block hmem hblock).symm
  | _ => cases hf

/-- A tree inside another one: its run is what the declarations and statements that
it has come to in the environment of the other. -/
theorem evaluate_inside (h : t.WellFormed) (h' : v.WellFormed) (hin : t.Inside v)
    (r : Surroundings) :
    let env := r.env v.root v.source
    evaluate r t.root t.source =
      (Eval.interfaces env (Eval.declarations t.root) >>= fun _ =>
        Eval.topLevel env (Eval.enter env env.config.maxCallDepth)
          (Eval.mainStatements t.root)) {} := by
  intro env
  let longer : Tree := ⟨t.root, v.source⟩
  have hlonger := h.inside hin
  -- with numbers for functions, over the longer text
  have hnumbers : Eval.program (r.ordinalEnv longer) = Eval.program (r.ordinalEnv t) :=
    ((hin.agrees r).program_eq h.root.2 (fun n => Eval.mem_preorders_of_declarations)
      fun n => Eval.mem_preorders_of_mainStatements).trans
      (Eval.program_eq h.root.2).symm
  -- with ranges that are looked up in the larger tree
  have hagrees : Eval.Agrees (fun _ => True) env
      ((r.ordinalEnv longer).keeping env.close env.body?) :=
    ⟨fun _ _ _ _ => trivial, rfl, rfl, rfl, fun _ _ => rfl, fun _ _ => rfl, rfl, rfl,
      fun _ _ _ => trivial⟩
  have hranges : Eval.program ((r.ordinalEnv longer).keeping env.close env.body?) =
      Eval.interfaces env (Eval.declarations t.root) >>= fun _ =>
        Eval.topLevel env (Eval.enter env env.config.maxCallDepth)
          (Eval.mainStatements t.root) :=
    hagrees.program_eq h.root.2 (fun _ _ => trivial) fun _ _ => trivial
  have hnone : ({} : Scopes Ordinal).All fun v => ∀ o, v = .function o → t.HasLambda o :=
    List.forall_mem_singleton.2 fun p hp => absurd hp List.not_mem_nil
  obtain ⟨hsame, -⟩ := Eval.mirrors_program (hlonger.ordinal_fit r) (h.inside_keeping h' hin r)
    h.root {} hnone
  rw [(h.evaluate_eq_ordinals r).1, ← hranges, ← hnumbers]
  refine Eq.symm (hsame.trans ?_)
  generalize Eval.program (r.ordinalEnv longer) {} = x
  rcases x with ⟨_ | _, s⟩ <;> rfl

end WellFormed

end Tree

end SamScript
