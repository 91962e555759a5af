/-
Layout does not change what a program does. Two texts whose tokens agree in
everything but their places have trees of one sketch, and nodes at the same
place of the two trees correspond (`Tree.Corresponds`): evaluation reads the
same of both, and lambdas that correspond have the same number. So with
numbers for functions the two runs are side by side from the first step to
the last, and each of them is the run with ranges of bytes.
-/
import SamScript.Proofs.Eval.Abreast
import SamScript.Proofs.Eval.Ordinal
import SamScript.Proofs.Tree.Reparse

namespace SamScript

open Node

/-- In two lists that are related place by place, elements at one place are
related. -/
theorem rel_getElem? {γ δ : Type} {R : γ → δ → Prop} {as : List γ} {bs : List δ}
    (h : List.Forall₂ R as bs) (i : Nat) : Option.Rel R as[i]? bs[i]? := by
  induction h generalizing i with
  | nil => exact .none
  | cons h _ ih =>
    cases i with
    | zero => exact .some h
    | succ i => simpa using ih i

-- ========================================================= correspondence

/-- Whether two nodes are at the same place of two trees: they have one
sketch, and as many lambdas come before them. -/
structure Tree.Corresponds (t t' : Tree) (n m : Node) : Prop where
  sketch_eq : n.sketch t.source = m.sketch t'.source
  place : ∃ before after before' after', t.root.preorder = before ++ (n.preorder ++ after) ∧
    t'.root.preorder = before' ++ (m.preorder ++ after') ∧
    before.countP isLambda = before'.countP isLambda

/-- Whether a sketch is one of a lambda. -/
def Sketch.isLambda : Sketch → Bool
  | .mk kind isNamed _ _ _ => isNamed && kind = .lambdaExpression

theorem Node.isLambda_sketch (source : List UInt8) (n : Node) :
    (n.sketch source).isLambda = n.isLambda := by
  rw [sketch_eq]
  rfl

/-- Nodes of one sketch are lambdas or are not. -/
theorem Node.isLambda_of_sketch {a b : List UInt8} {n m : Node} (h : n.sketch a = m.sketch b) :
    n.isLambda = m.isLambda := by
  rw [← isLambda_sketch a, h, isLambda_sketch]

/-- Nodes of one sketch have as many lambdas below them. -/
theorem Node.countP_lambdas {a b : List UInt8} {n m : Node} (h : n.sketch a = m.sketch b) :
    n.preorder.countP isLambda = m.preorder.countP isLambda := by
  have hsketches {source : List UInt8} (ns : List Node) :
      ns.countP isLambda = (ns.map (sketch source)).countP Sketch.isLambda := by
    rw [List.countP_map]
    exact List.countP_congr fun n _ => by rw [Function.comp, isLambda_sketch]
  rw [hsketches, hsketches, sketch_preorder h]

namespace Tree.Corresponds

variable {t t' : Tree} {n m : Node}

theorem root (h : t.root.sketch t.source = t'.root.sketch t'.source) :
    t.Corresponds t' t.root t'.root :=
  ⟨h, [], [], [], [], by simp, by simp, rfl⟩

theorem mem (h : t.Corresponds t' n m) : n ∈ t.root.preorder := by
  obtain ⟨before, after, -, -, hplace, -⟩ := h.place
  rw [hplace]
  exact List.mem_append_right _ (List.mem_append_left _ (mem_preorder_self n))

/-- Nodes side by side correspond one by one. -/
theorem forall₂ {ns ms after after' : List Node} (before before' : List Node)
    (h : ns.map (sketch t.source) = ms.map (sketch t'.source))
    (hplace : t.root.preorder = before ++ (preorders ns ++ after))
    (hplace' : t'.root.preorder = before' ++ (preorders ms ++ after'))
    (hcount : before.countP isLambda = before'.countP isLambda) :
    List.Forall₂ (t.Corresponds t') ns ms := by
  induction ns generalizing ms before before' with
  | nil =>
    rw [List.map_nil, eq_comm, List.map_eq_nil_iff] at h
    rw [h]
    exact .nil
  | cons n ns ih =>
    cases ms with
    | nil => cases h
    | cons m ms =>
      obtain ⟨hn, hns⟩ := List.cons.inj h
      rw [preorders, List.append_assoc] at hplace hplace'
      refine .cons ⟨hn, before, _, before', _, hplace, hplace', hcount⟩
        (ih (before ++ n.preorder) (before' ++ m.preorder) hns ?_ ?_ ?_)
      · rw [hplace, List.append_assoc]
      · rw [hplace', List.append_assoc]
      · rw [List.countP_append, List.countP_append, hcount, countP_lambdas hn]

/-- The children of nodes that correspond do. -/
theorem children (h : t.Corresponds t' n m) :
    List.Forall₂ (t.Corresponds t') n.children m.children := by
  obtain ⟨before, after, before', after', hplace, hplace', hcount⟩ := h.place
  rw [preorder_eq n] at hplace
  rw [preorder_eq m] at hplace'
  refine forall₂ (before ++ [n]) (before' ++ [m]) (of_sketch_eq h.sketch_eq).2.2.2.2
    (by rw [hplace]; simp; rfl) (by rw [hplace']; simp; rfl) ?_
  rw [List.countP_append, List.countP_append, hcount, List.countP_singleton, List.countP_singleton,
    isLambda_of_sketch h.sketch_eq]

theorem kind (h : t.Corresponds t' n m) : m.kind = n.kind :=
  (of_sketch_eq h.sketch_eq).1.symm

theorem isNamed (h : t.Corresponds t' n m) : m.isNamed = n.isNamed :=
  (of_sketch_eq h.sketch_eq).2.1.symm

theorem field (h : t.Corresponds t' n m) : m.field = n.field :=
  (of_sketch_eq h.sketch_eq).2.2.1.symm

theorem child? (h : t.Corresponds t' n m) (field : Field) :
    Option.Rel (t.Corresponds t') (n.child? field) (m.child? field) :=
  rel_child? Corresponds.field h.children field

/-- What is below nodes that correspond corresponds, node by node. -/
theorem preorder (n : Node) : ∀ m, t.Corresponds t' n m →
    List.Forall₂ (t.Corresponds t') n.preorder m.preorder := by
  induction n using children_induction with
  | step n ih =>
    intro m h
    have hchildren := h.children
    rw [preorder_eq, preorder_eq]
    refine .cons h ?_
    generalize n.children = ns, m.children = ms at ih hchildren
    induction hchildren with
    | nil => exact .nil
    | @cons n m ns ms hn _ ihs =>
      rw [List.forall_mem_cons] at ih
      rw [preorders, preorders]
      exact List.rel_append (ih.1 _ hn) (ihs ih.2)

/-- The lambdas of two trees of one sketch correspond, number by number. -/
theorem lambdas (h : t.root.sketch t.source = t'.root.sketch t'.source) :
    List.Forall₂ (t.Corresponds t') t.lambdas t'.lambdas := by
  refine List.rel_filter (fun n m hn => ?_) (preorder t.root t'.root (root h))
  show n.isLambda = true ↔ m.isLambda = true
  rw [isLambda_of_sketch hn.sketch_eq]

/-- Lambdas that correspond have the same number. -/
theorem index (h : t.Corresponds t' n m) (hk : n.Is .lambdaExpression) :
    ∃ i : Nat, t.lambdas[i]? = some n ∧ t'.lambdas[i]? = some m := by
  have hm : m.Is .lambdaExpression := ⟨h.isNamed.trans hk.1, h.kind.trans hk.2⟩
  obtain ⟨before, after, before', after', hplace, hplace', hcount⟩ := h.place
  have hat {u : Tree} {n : Node} {before after : List Node} (hn : n.Is .lambdaExpression)
      (hplace : u.root.preorder = before ++ (n.preorder ++ after)) :
      u.lambdas[before.countP isLambda]? = some n := by
    rw [Tree.lambdas, hplace, preorder_eq, List.filter_append, List.cons_append,
      List.filter_cons_of_pos (isLambda_iff.2 hn), List.countP_eq_length_filter,
      List.getElem?_append_right (Nat.le_refl _), Nat.sub_self]
    rfl
  exact ⟨_, hat hk hplace, hcount ▸ hat hm hplace'⟩

end Tree.Corresponds

-- ============================================================= evaluation

namespace Tree.Corresponds

variable {t t' : Tree} {n m : Node} {r : Surroundings} {file : Option String}

/-- Nodes that correspond, if they are words or marks, spell the same. -/
theorem text (h : t.Corresponds t' n m) (hk : (n.isNamed && !n.kind.isWord) = false) :
    (({ r with file } : Surroundings).ordinalEnv t').text m = (r.ordinalEnv t).text n := by
  have hspelling := (of_sketch_eq h.sketch_eq).2.2.2.1
  unfold spelling at hspelling
  rw [h.isNamed, h.kind, hk] at hspelling
  have hbytes : n.bytes (r.ordinalEnv t).source =
      m.bytes (({ r with file } : Surroundings).ordinalEnv t').source := hspelling
  unfold Env.text
  rw [hbytes]

end Tree.Corresponds

namespace Tree.WellFormed

variable {t t' : Tree} {n m : Node}

/-- A node of a kind with children is part of the structure, or it has none. -/
theorem is_or_bare (h : t.WellFormed) (hn : n ∈ t.root.preorder) {kind : NodeKind}
    (hk : n.kind = kind) : n.Is kind ∨ n.children = [] := by
  cases hnamed : n.isNamed with
  | true => exact .inl ⟨hnamed, hk⟩
  | false => exact .inr (h.bare n hn hnamed)

/-- Where two trees have one sketch, what plays a role in nodes that
correspond spells the same, if it is always an identifier. -/
theorem rel_text (h : t.WellFormed) (hn : t.Corresponds t' n m) {kind : NodeKind}
    (hk : n.kind = kind) {field : Field}
    (hidentifier : n.Is kind → n.Has field (·.Is .identifier)) (r : Surroundings)
    (file : Option String) :
    Option.Rel (fun a b => (({ r with file } : Surroundings).ordinalEnv t').text b =
      (r.ordinalEnv t).text a) (n.child? field) (m.child? field) := by
  have hchild := hn.child? field
  rcases h.is_or_bare hn.mem hk with his | hbare
  · obtain ⟨c, hc, hidentifier⟩ := hidentifier his
    rw [hc] at hchild ⊢
    generalize m.child? field = o at hchild
    cases hchild with
    | some hcd => exact .some (hcd.text (by rw [hidentifier.1, hidentifier.2]; rfl))
  · rw [child?, hbare] at hchild ⊢
    generalize m.child? field = o at hchild
    cases hchild
    exact .none

/-- Evaluation of two trees of one sketch differs in nothing but places. -/
theorem ordinals_abreast (h : t.WellFormed) (h' : t'.WellFormed)
    (hsketch : t.root.sketch t.source = t'.root.sketch t'.source) (r : Surroundings)
    (file : Option String) :
    Eval.Abreast (fun _ _ => True) (t.Corresponds t') (r.ordinalEnv t)
      (({ r with file } : Surroundings).ordinalEnv t') where
  near_self _ := trivial
  bounds := rfl
  entry _ _ := rfl
  launch _ := rfl
  root := .root hsketch
  body f := by
    have hlambda := rel_getElem? (Tree.Corresponds.lambdas hsketch) f.index
    show Option.Rel _ (t.lambdas[f.index]?.bind _) (t'.lambdas[f.index]?.bind _)
    generalize t.lambdas[f.index]? = o, t'.lambdas[f.index]? = o' at hlambda
    cases hlambda with
    | none => exact .none
    | some hn => exact hn.child? .body
  kind := Tree.Corresponds.kind
  isNamed := Tree.Corresponds.isNamed
  field := Tree.Corresponds.field
  children := Tree.Corresponds.children
  place _ := trivial
  text hn hk := by
    refine hn.text ?_
    simp only [List.mem_cons, List.not_mem_nil, or_false] at hk
    rcases hk with hk | hk | hk | hk <;> simp [hk, NodeKind.isWord]
  operator {n m} hn hk := by
    have hchildren := hn.children
    unfold Eval.operatorText
    rcases h.is_or_bare hn.mem hk with his | hbare
    · obtain ⟨op, hop, hmark, -⟩ := ((h.ordinal_fit r).shape hn.mem his).2.2
      have hsecond := rel_getElem? hchildren 1
      rw [hop] at hsecond ⊢
      generalize m.children[1]? = o at hsecond
      cases hsecond with
      | some hab => exact hab.text (by rw [hmark]; rfl)
    · rw [hbare] at hchildren ⊢
      generalize m.children = ms at hchildren ⊢
      cases hchildren
      rfl
  access hn hk := h.rel_text hn hk (fun his => ((h.ordinal_fit r).shape hn.mem his).2) r file
  declared hn hk := h.rel_text hn hk (fun his => ((h.ordinal_fit r).shape hn.mem his).1) r file
  close {n m} hn hk := by
    have hbody := hn.child? .body
    rcases h.is_or_bare hn.mem hk with his | hbare
    · obtain ⟨i, hi, hi'⟩ := hn.index his
      obtain ⟨hlt, rfl⟩ := List.getElem?_eq_some_iff.1 hi
      obtain ⟨hlt', rfl⟩ := List.getElem?_eq_some_iff.1 hi'
      generalize ho : t.lambdas[i].child? .body = o at hbody
      generalize ho' : t'.lambdas[i].child? .body = o' at hbody
      cases hbody with
      | none => exact .none
      | some hab =>
        refine .some ⟨hab, funext fun parameters => ?_⟩
        exact (h'.ordinal_eq hlt' ho' parameters).trans (h.ordinal_eq hlt ho parameters).symm
    · rw [child?, hbare] at hbody ⊢
      generalize m.child? .body = o at hbody
      cases hbody
      exact .none

end Tree.WellFormed

-- ============================================================ the theorem

/-- A failure without its place. -/
def Failure.unplaced : Failure → Failure
  | .fault cause _ => .fault cause none
  | e => e

theorem Failure.Alike.unplaced {near : Place → Place → Prop} {e f : Failure}
    (h : e.Alike near f) : f.unplaced = e.unplaced := by
  cases h <;> rfl

/-- Layout does not change meaning. If the tokens of two texts agree in their
kinds, their lexemes and in whether each `-` touches a number after it, then
both texts fail to parse with the same code and message, or both have trees
that are the same in parentheses. Then the two runs, with the same
configuration, files and programs outside, end alike, with the same failure
but for its place if they fail. They leave the same frames, name by name and
value by value, and start the same programs: both states are one state in
which functions are numbers, each function of the first text standing where
the second has the function of the lambda of the same number. -/
theorem layout_keeps_meaning (r : Surroundings) (file : Option String) {source source' : String}
    {list list' : TokenList} (h : tokenize r.file source = .ok list)
    (h' : tokenize file source' = .ok list')
    (hwording : Parser.wording list'.tokens = Parser.wording list.tokens) :
    let r' : Surroundings := { r with file }
    (∃ e e', Tree.ofSource r.bounds r.file source = .error (.parse e) ∧
      Tree.ofSource r'.bounds r'.file source' = .error (.parse e') ∧
      e'.code = e.code ∧ e'.message = e.message) ∨
    ∃ t t', Tree.ofSource r.bounds r.file source = .ok t ∧
      Tree.ofSource r'.bounds r'.file source' = .ok t' ∧ t'.root.sexp = t.root.sexp ∧
      let x := evaluate r t.root t.source
      let x' := evaluate r' t'.root t'.source
      x'.1.mapError Failure.unplaced = x.1.mapError Failure.unplaced ∧
      x'.2.scopes.frames.map Bindings.names = x.2.scopes.frames.map Bindings.names ∧
      ∃ s : RunState Ordinal, x.2 = s.map t.function ∧ x'.2 = s.map t'.function ∧
        ∀ frame ∈ s.scopes.stack, ∀ p ∈ frame, ∀ o, .function o ∈ p.2.parts →
          t.HasLambda o ∧ t'.HasLambda o := by
  intro r'
  rcases Tree.ofSource_alike r.bounds h h' hwording with
    ⟨e, e', he, he', hfault⟩ | ⟨t, t', ht, ht', hsketch⟩
  · refine .inl ⟨e, e', he, he', ?_, ?_⟩
    · rw [ParseError.code, ParseError.code, hfault]
    · rw [ParseError.message, ParseError.message, hfault]
  refine .inr ⟨t, t', ht, ht', (Node.sexp_of_sketch hsketch).symm, ?_⟩
  have hwell := Tree.ofSource_wellFormed ht
  have hwell' := Tree.ofSource_wellFormed ht'
  obtain ⟨hx, hlambdas⟩ := hwell.evaluate_eq_ordinals r
  obtain ⟨hx', hlambdas'⟩ := hwell'.evaluate_eq_ordinals r'
  have hrun : Run.Parallel (fun _ => False) (fun _ _ => True)
      (Eval.program (r.ordinalEnv t)) (Eval.program (r'.ordinalEnv t')) :=
    Eval.parallel_program (hwell.ordinals_abreast hwell' hsketch r file) (Nat.le_refl _) (.inl rfl)
  have hbeside := hrun {}
  dsimp only
  rw [hx, hx']
  generalize Eval.program (r.ordinalEnv t) {} = y at hbeside hlambdas ⊢
  generalize Eval.program (r'.ordinalEnv t') {} = y' at hbeside hlambdas' ⊢
  have hstate : y'.2 = y.2 ∧
      y'.1.mapError Failure.unplaced = y.1.mapError Failure.unplaced := by
    cases hbeside with
    | ok => exact ⟨rfl, rfl⟩
    | error he => exact ⟨rfl, congrArg Except.error he.unplaced⟩
    | halted h => exact h.elim
  refine ⟨hstate.2, ?_, y.2, rfl, by rw [hstate.1], fun frame hframe p hp o ho => ?_⟩
  · rw [hstate.1]
    exact (Scopes.names_map _).trans (Scopes.names_map _).symm
  · rw [hstate.1] at hlambdas'
    exact ⟨hlambdas frame hframe p hp o ho, hlambdas' frame hframe p hp o ho⟩

/-- A program in two layouts, where no file can be read and nothing can be
started. -/
theorem layout_keeps_meaning_two_layouts :
    let r : Surroundings := { host := ⟨fun _ => .error .nullByte, fun _ _ => .error .badVariable⟩ }
    let r' : Surroundings := { r with file := some "spread" }
    let source := "let f = (x) => { return x; }; let a = f(-1) == f, b = 2 - 1;"
    let source' := "let f = ( x ) =>\n\t{return x ; };\nlet a = f(-1) // no\n ==f, /**/ b=2 -\n 1;"
    ∃ list list', tokenize r.file source = .ok list ∧ tokenize r'.file source' = .ok list' ∧
      Parser.wording list'.tokens = Parser.wording list.tokens ∧
      ∃ t t', Tree.ofSource r.bounds r.file source = .ok t ∧
        Tree.ofSource r'.bounds r'.file source' = .ok t' ∧ t'.root.sexp = t.root.sexp ∧
        ∃ s : RunState Ordinal, (evaluate r t.root t.source).2 = s.map t.function ∧
          (evaluate r' t'.root t'.source).2 = s.map t'.function := by
  intro r r' source source'
  have hparsed : (Tree.ofSource r.bounds r.file source).isOk = true := by
    decide +kernel
  obtain ⟨list, hlist⟩ : ∃ list, tokenize r.file source = .ok list := by
    cases hlist : tokenize r.file source with
    | error e =>
      rw [Tree.ofSource, hlist] at hparsed
      cases hparsed
    | ok list => exact ⟨list, rfl⟩
  have hwording : (tokenize r'.file source').toOption.map (Parser.wording ·.tokens) =
      (tokenize r.file source).toOption.map (Parser.wording ·.tokens) := by
    decide +kernel
  rw [hlist] at hwording
  cases hlist' : tokenize r'.file source' with
  | error e =>
    rw [hlist'] at hwording
    cases hwording
  | ok list' =>
    rw [hlist'] at hwording
    refine ⟨list, list', hlist, rfl, Option.some.inj hwording, ?_⟩
    rcases layout_keeps_meaning r r'.file hlist hlist' (Option.some.inj hwording) with
      ⟨e, e', he, -⟩ | ⟨t, t', ht, ht', hsexp, -, -, s, hs, hs', -⟩
    · rw [he] at hparsed
      cases hparsed
    · exact ⟨t, t', ht, ht', hsexp, s, hs, hs'⟩

end SamScript
