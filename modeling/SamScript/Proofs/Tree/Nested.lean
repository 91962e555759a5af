/-
Else-ifs in blocks. An if that is the alternative of another one may stand alone in a
block over the same bytes (`Node.inBlock`). A tree in which some of them do (`Nested`)
is built like the one in which none does, over the same stretches, so a lookup by bytes
ends at the node that it ended at: it only comes by the blocks on its way down.
-/
import Mathlib.Data.List.Forall2
import SamScript.Proofs.Tree.Address

namespace SamScript.Node

variable {n m c d : Node} {parent : NodeKind} {cs ds : List Node} {f : Node → Node}

-- =================================================== nodes at an address

/-- The tree with the node at an address changed. -/
def modifyAt (f : Node → Node) : List Nat → Node → Node
  | [], n => f n
  | i :: rest, .mk kind isNamed field extent children =>
    .mk kind isNamed field extent (children.modify i (modifyAt f rest))

theorem modifyAt_cons (i : Nat) (rest : List Nat) (n : Node) :
    modifyAt f (i :: rest) n =
      .mk n.kind n.isNamed n.field n.extent (n.children.modify i (modifyAt f rest)) := by
  cases n
  rfl

/-- At the front of an address is the node that was there, changed at the rest of it. -/
theorem at?_modifyAt (p q : List Nat) (n : Node) :
    (modifyAt f (p ++ q) n).at? p = (n.at? p).map (modifyAt f q) := by
  induction p generalizing n with
  | nil => rfl
  | cons i p ih =>
    rw [List.cons_append, modifyAt_cons, at?, at?, children, List.getElem?_modify_eq]
    cases n.children[i]? with
    | none => rfl
    | some c => exact ih c

-- ============================================================== in a block

/-- A block over the bytes of a node, in its role, with nothing in it but the node as
a statement. `statement` and `inner` are the roles of the statement in the block and
of the node in the statement. -/
def inBlock (statement inner : Option Field) (n : Node) : Node :=
  .mk .statementBlock true n.field n.extent [.mk .expressionStatement true statement n.extent
    [.mk n.kind n.isNamed inner n.extent n.children]]

mutual

/-- Whether a tree is built like another one, but that else-ifs may stand in
blocks. The roles of the two topmost nodes do not matter. -/
inductive Nested : Node → Node → Prop
  | mk {kind : NodeKind} {isNamed : Bool} (field field' : Option Field) {extent : Extent}
      {cs ds : List Node} (children : NestedAll kind cs ds) :
      Nested (.mk kind isNamed field extent cs) (.mk kind isNamed field' extent ds)

/-- The same for a child of a node of some kind. -/
inductive NestedChild : NodeKind → Node → Node → Prop
  | same {parent : NodeKind} {c d : Node} (field : d.field = c.field) (h : Nested c d) :
      NestedChild parent c d
  /-- An else-if that stands in a block. -/
  | inBlock {c d : Node} (statement inner : Option Field) (is : c.Is .ifExpression)
      (role : c.field = some .else_) (field : d.field = c.field) (h : Nested c d) :
      NestedChild .ifExpression c (d.inBlock statement inner)

/-- The same for all children of a node of some kind. -/
inductive NestedAll : NodeKind → List Node → List Node → Prop
  | nil {parent : NodeKind} : NestedAll parent [] []
  | cons {parent : NodeKind} {c d : Node} {cs ds : List Node} (first : NestedChild parent c d)
      (rest : NestedAll parent cs ds) : NestedAll parent (c :: cs) (d :: ds)

end

theorem nestedAll_iff : NestedAll parent cs ds ↔ List.Forall₂ (NestedChild parent) cs ds := by
  constructor
  · intro h
    induction cs generalizing ds with
    | nil =>
      cases h
      exact .nil
    | cons c cs ih =>
      cases h with
      | cons first rest => exact .cons first (ih rest)
  · intro h
    induction h with
    | nil => exact .nil
    | cons first _ ih => exact .cons first ih

namespace Nested

theorem kind (h : Nested n m) : m.kind = n.kind := by
  cases h
  rfl

theorem isNamed (h : Nested n m) : m.isNamed = n.isNamed := by
  cases h
  rfl

theorem extent (h : Nested n m) : m.extent = n.extent := by
  cases h
  rfl

theorem children (h : Nested n m) :
    List.Forall₂ (NestedChild n.kind) n.children m.children := by
  cases h with
  | mk _ _ h => exact nestedAll_iff.1 h

/-- The role of a node does not matter. -/
theorem inRole (h : Nested n m) (field : Option Field) :
    Nested n (.mk m.kind m.isNamed field m.extent m.children) := by
  cases h with
  | mk _ _ h => exact .mk _ _ h

theorem of_children (h : List.Forall₂ (NestedChild n.kind) n.children ds) :
    Nested n (.mk n.kind n.isNamed n.field n.extent ds) := by
  cases n
  exact .mk _ _ (nestedAll_iff.2 h)

theorem refl (n : Node) : Nested n n := by
  induction n using children_induction with
  | step n ih =>
    cases n
    exact of_children (List.forall₂_same.2 fun c hc => .same rfl (ih c hc))

end Nested

namespace NestedChild

theorem field (h : NestedChild parent c d) : d.field = c.field := by
  cases h with
  | same field h => exact field
  | inBlock _ _ _ _ field _ => exact field

theorem extent (h : NestedChild parent c d) : d.extent = c.extent := by
  cases h with
  | same _ h => exact h.extent
  | inBlock _ _ _ _ _ h => exact h.extent

/-- Only where an if has an alternative is there a block in the place of another node. -/
theorem nested (h : NestedChild parent c d)
    (hne : parent ≠ .ifExpression ∨ c.field ≠ some .else_) : Nested c d := by
  cases h with
  | same _ h => exact h
  | inBlock _ _ _ role _ _ =>
    rcases hne with hne | hne
    · exact absurd rfl hne
    · exact absurd role hne

end NestedChild

/-- The children of a node that is no if are built alike and play the same roles. -/
theorem Nested.children_of_ne (h : Nested n m) (hne : n.kind ≠ .ifExpression) :
    List.Forall₂ (fun c d => Nested c d ∧ d.field = c.field) n.children m.children :=
  h.children.imp fun _ _ hcd => ⟨hcd.nested (.inl hne), hcd.field⟩

/-- A change of one element of a list relates its elements to those before, if it
relates the one that it changes. -/
theorem forall₂_modify {γ : Type} {R : γ → γ → Prop} {g : γ → γ} {i : Nat} {l : List γ}
    (hself : ∀ a, R a a) (h : ∀ a, l[i]? = some a → R a (g a)) :
    List.Forall₂ R l (l.modify i g) := by
  induction l generalizing i with
  | nil => simp
  | cons a l ih =>
    cases i with
    | zero => exact .cons (h a rfl) (List.forall₂_same.2 fun b _ => hself b)
    | succ i => exact .cons (hself a) (ih h)

/-- A tree in which one else-if stands in a block is built like the one in which it
does not. -/
theorem nested_modifyAt (statement inner : Option Field) {p : List Nat} {i : Nat}
    {enclosing alternative : Node} (hat : n.at? p = some enclosing)
    (hif : enclosing.kind = .ifExpression) (hchild : enclosing.children[i]? = some alternative)
    (his : alternative.Is .ifExpression) (hrole : alternative.field = some .else_) :
    Nested n (n.modifyAt (inBlock statement inner) (p ++ [i])) := by
  induction p generalizing n with
  | nil =>
    obtain rfl : n = enclosing := Option.some.inj hat
    rw [List.nil_append, modifyAt_cons]
    refine .of_children (forall₂_modify (fun c => .same rfl (.refl c)) fun c hc => ?_)
    obtain rfl : alternative = c := Option.some.inj (hchild.symm.trans hc)
    rw [hif]
    exact .inBlock statement inner his hrole rfl (.refl alternative)
  | cons j p ih =>
    obtain ⟨c, hc, hrest⟩ := at?_cons_eq_some.1 hat
    rw [List.cons_append, modifyAt_cons]
    refine .of_children (forall₂_modify (fun c => .same rfl (.refl c)) fun d hd => ?_)
    obtain rfl : c = d := Option.some.inj (hc.symm.trans hd)
    refine .same ?_ (ih hrest)
    obtain ⟨k, rest, hpath⟩ := List.exists_cons_of_ne_nil (show p ++ [i] ≠ [] by simp)
    rw [hpath, modifyAt_cons]
    rfl

-- ================================================================ lookups

variable {start stop : Nat}

theorem Nested.spans (h : Nested n m) : m.spans start stop = n.spans start stop := by
  unfold Node.spans
  rw [h.extent]

theorem NestedChild.spans (h : NestedChild parent c d) :
    d.spans start stop = c.spans start stop := by
  unfold Node.spans
  rw [h.extent]

theorem trailAmong_singleton (h : n.spans start stop = true) :
    trailAmong start stop [n] = n.trail start stop :=
  if_pos h

/-- A trail goes through a block to the node that stands in it. -/
theorem getLast?_trail_inBlock (statement inner : Option Field)
    (hspans : n.spans start stop = true) :
    ((n.inBlock statement inner).trail start stop).getLast? =
      ((Node.mk n.kind n.isNamed inner n.extent n.children).trail start stop).getLast? := by
  have hinside (kind : NodeKind) (isNamed : Bool) (field : Option Field) (children : List Node) :
      (Node.mk kind isNamed field n.extent children).spans start stop = true := hspans
  rw [inBlock, trail, trailAmong_singleton (hinside ..), trail, trailAmong_singleton (hinside ..),
    trail, List.getLast?_cons_cons, List.getLast?_cons_cons]

/-- Trails down trees that are built alike end at nodes that are built alike. -/
theorem rel_trail (n : Node) : ∀ m, Nested n m →
    Option.Rel Nested (n.trail start stop).getLast? (m.trail start stop).getLast? := by
  induction n using children_induction with
  | step n ih =>
    intro m h
    have hamong : Option.Rel Nested (trailAmong start stop n.children).getLast?
        (trailAmong start stop m.children).getLast? := by
      have hchildren := h.children
      generalize n.kind = parent, n.children = cs, m.children = ds at ih hchildren
      induction hchildren with
      | nil => exact .none
      | @cons c d cs ds hfirst _ ihs =>
        rw [List.forall_mem_cons] at ih
        rw [trailAmong, trailAmong, hfirst.spans]
        by_cases hspans : c.spans start stop = true
        · rw [if_pos hspans, if_pos hspans]
          cases hfirst with
          | same _ h => exact ih.1 d h
          | inBlock statement inner _ _ _ h =>
            rw [getLast?_trail_inBlock statement inner (h.spans.trans hspans)]
            exact ih.1 _ (h.inRole inner)
        · rw [if_neg hspans, if_neg hspans]
          exact ihs ih.2
    rw [trail_eq, trail_eq, List.getLast?_cons, List.getLast?_cons]
    refine .some ?_
    generalize (trailAmong start stop n.children).getLast? = a,
      (trailAmong start stop m.children).getLast? = b at hamong
    cases hamong with
    | none => exact h
    | some hab => exact hab

/-- Lookups in trees that are built alike find nodes that are built alike. -/
theorem Nested.rel_descendant? (h : Nested n m) (start stop : Nat) :
    Option.Rel Nested (n.descendant? start stop) (m.descendant? start stop) := by
  unfold descendant?
  rw [h.spans]
  split
  · exact rel_trail n m h
  · exact .none

end SamScript.Node
