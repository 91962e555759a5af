/-
Where returns stand. A return leaves the blocks and the conditionals around
it one by one, and what it must come out at is the body of a lambda. A
conditional lets it through where it stands as a statement does, and nowhere
else is anything done with it (`Node.Disciplined`).

That is said of places in a tree, a node with those above it. What can end in
a return has a return below it, behind blocks and conditionals alone
(`Node.MayReturn`), and in a disciplined tree such a node is itself on the way
to the body of a lambda (`Node.MayReturn.leadsToBody`).
-/
import SamScript.Proofs.Tree.Preorder

namespace SamScript

-- =============================================================== places

namespace Cursor

mutual

/-- The places at a node and below it, the place of the node first. -/
def places (above : List Node) : Node → List Cursor
  | n@(.mk _ _ _ _ children) => ⟨n, above⟩ :: placesAmong (n :: above) children

def placesAmong (above : List Node) : List Node → List Cursor
  | [] => []
  | n :: rest => places above n ++ placesAmong above rest

end

variable {above : List Node} {n m : Node} {c : Cursor}

theorem mem_placesAmong {ns : List Node} :
    c ∈ placesAmong above ns ↔ ∃ n ∈ ns, c ∈ places above n := by
  induction ns with
  | nil => simp [placesAmong]
  | cons a rest ih => simp [placesAmong, ih]

theorem mem_places_iff :
    c ∈ places above n ↔ c = ⟨n, above⟩ ∨ ∃ m ∈ n.children, c ∈ places (n :: above) m := by
  cases n
  rw [places, List.mem_cons, mem_placesAmong]
  rfl

theorem mem_places_self : ⟨n, above⟩ ∈ places above n :=
  mem_places_iff.2 (.inl rfl)

theorem mem_places_of_child (hm : m ∈ n.children) (hc : c ∈ places (n :: above) m) :
    c ∈ places above n :=
  mem_places_iff.2 (.inr ⟨m, hm, hc⟩)

/-- The places below a place are places of the tree. -/
theorem mem_places_trans {d : Cursor} (hc : c ∈ places above n)
    (hd : d ∈ places c.above c.node) : d ∈ places above n := by
  induction n using Node.children_induction generalizing above with
  | step n ih =>
    rcases mem_places_iff.1 hc with rfl | ⟨m, hm, hcm⟩
    · exact hd
    · exact mem_places_of_child hm (ih m hm hcm)

theorem mem_places_down (hc : c ∈ places above n) (hm : m ∈ c.node.children) :
    c.down m ∈ places above n :=
  mem_places_trans hc (mem_places_of_child hm mem_places_self)

/-- Every node of a tree is at some place. -/
theorem exists_place (above : List Node) (h : m ∈ n.preorder) :
    ∃ ancestors, ⟨m, ancestors⟩ ∈ places above n := by
  induction n using Node.children_induction generalizing above with
  | step n ih =>
    rcases Node.mem_preorder_iff.1 h with rfl | ⟨c, hc, hmc⟩
    · exact ⟨above, mem_places_self⟩
    · obtain ⟨ancestors, hplace⟩ := ih c hc (n :: above) hmc
      exact ⟨ancestors, mem_places_of_child hc hplace⟩

end Cursor

namespace Node

/-- Every place in a tree, the root first. -/
def cursors (root : Node) : List Cursor :=
  Cursor.places [] root

-- =========================================================== discipline

/-- Whether a node below others is in statement position: it is the expression
of an expression statement, or the else part of a conditional that is in
statement position. -/
def InStatementPosition (n : Node) : (above : List Node) → Prop
  | [] => False
  | p :: above =>
    p.kind = .expressionStatement ∧ p.named.head? = some n ∨
      p.kind = .ifExpression ∧ p.child? .else_ = some n ∧ p.InStatementPosition above

instance decidableInStatementPosition : (n : Node) → (above : List Node) →
    Decidable (n.InStatementPosition above)
  | _, [] => inferInstanceAs (Decidable False)
  | _, p :: above =>
    have := decidableInStatementPosition p above
    inferInstanceAs (Decidable (_ ∨ _ ∧ _ ∧ p.InStatementPosition above))

/-- Whether a node is in the body of a lambda, and every conditional from the
node up to the innermost such body is in statement position. -/
def LeadsToBody (n : Node) : (above : List Node) → Prop
  | [] => False
  | p :: above =>
    p.kind = .lambdaExpression ∧ p.child? .body = some n ∨
      (n.kind = .ifExpression → n.InStatementPosition (p :: above)) ∧ p.LeadsToBody above

instance decidableLeadsToBody : (n : Node) → (above : List Node) →
    Decidable (n.LeadsToBody above)
  | _, [] => inferInstanceAs (Decidable False)
  | n, p :: above =>
    have := decidableLeadsToBody p above
    inferInstanceAs (Decidable
      (_ ∨ (n.kind = .ifExpression → n.InStatementPosition (p :: above)) ∧ p.LeadsToBody above))

/-- Whether all returns of a tree stand in bodies of lambdas, no conditional
around them being used as a value before the body ends. -/
def Disciplined (root : Node) : Prop :=
  ∀ c ∈ root.cursors, c.node.kind = .returnStatement → c.node.LeadsToBody c.above

instance (root : Node) : Decidable root.Disciplined :=
  inferInstanceAs (Decidable (∀ c ∈ root.cursors, _ → _))

-- ============================================================== returns

/-- Whether a node can end in a return: it is one, or it hands on what something
below it ends in that can. -/
inductive MayReturn : Node → Prop where
  | here {n} : n.kind = .returnStatement → MayReturn n
  | plain {n inner rest} : n.kind = .expressionStatement → n.named = inner :: rest →
      MayReturn inner → MayReturn n
  | block {n c} : n.kind = .statementBlock → c ∈ n.named → MayReturn c → MayReturn n
  | consequence {n c} : n.kind = .ifExpression → n.child? .consequence = some c →
      MayReturn c → MayReturn n
  | else_ {n c} : n.kind = .ifExpression → n.child? .else_ = some c → MayReturn c → MayReturn n

variable {root n p : Node} {above : List Node}

/-- From what is no lambda a way leads on only from above. -/
theorem LeadsToBody.of_child {c : Node} (h : c.LeadsToBody (n :: above))
    (hn : n.kind ≠ .lambdaExpression) : n.LeadsToBody above := by
  rcases h with ⟨hlambda, -⟩ | ⟨-, hn⟩
  · exact absurd hlambda hn
  · exact hn

/-- In a disciplined tree whatever can end in a return is on the way to the
body of a lambda: down to the return there are only blocks and conditionals,
so the way from the return leads through the node. -/
theorem MayReturn.leadsToBody (h : n.MayReturn) (hroot : root.Disciplined)
    (hn : ⟨n, above⟩ ∈ root.cursors) : n.LeadsToBody above := by
  have below {n c : Node} {above : List Node} {kind : NodeKind} (hk : n.kind = kind)
      (hkind : kind ≠ .lambdaExpression) (hc : c ∈ n.children)
      (ih : ∀ {above}, ⟨c, above⟩ ∈ root.cursors → c.LeadsToBody above)
      (hn : ⟨n, above⟩ ∈ root.cursors) : n.LeadsToBody above :=
    (ih (Cursor.mem_places_down hn hc)).of_child (hk ▸ hkind)
  induction h generalizing above with
  | here hk => exact hroot _ hn hk
  | plain hk hc _ ih =>
    exact below hk nofun (mem_children_of_named (hc ▸ List.mem_cons_self)) ih hn
  | block hk hc _ ih => exact below hk nofun (mem_children_of_named hc) ih hn
  | consequence hk hc _ ih | else_ hk hc _ ih =>
    exact below hk nofun (mem_children_of_child? hc) ih hn

end Node

end SamScript
