/-
Looking nodes up by their bytes. In a tree whose children follow each other,
a node that no child of it covers whole is what a lookup of its own range
finds (`Ordered.descendant?_eq`): on the way down only one child can span the
range, and the way ends at the node. The bodies of lambdas are such nodes,
and no two lambdas of a tree have bodies with the same range.
-/
import SamScript.Proofs.Tree.Layout

namespace SamScript.Node

variable {n m c : Node} {p : Node → Prop}

/-- The bytes a node covers, from the first to after the last. -/
def range (n : Node) : Nat × Nat :=
  (n.extent.startByte, n.extent.endByte)

-- ============================================================= containment

/-- A child lies in its parent and is not empty. -/
theorem Ordered.of_mem (h : n.Ordered) (hc : c ∈ n.children) :
    n.extent.startByte ≤ c.extent.startByte ∧ c.extent.startByte < c.extent.endByte ∧
      c.extent.endByte ≤ n.extent.endByte :=
  InOrder.of_mem h (List.mem_map_of_mem hc)

/-- Whatever is below a node lies in it. -/
theorem within_of_mem_preorder (h : n.All Ordered) (hm : m ∈ n.preorder) :
    n.extent.startByte ≤ m.extent.startByte ∧ m.extent.endByte ≤ n.extent.endByte := by
  induction n using children_induction with
  | step n ih =>
    rcases mem_preorder_iff.1 hm with rfl | ⟨c, hc, hmc⟩
    · exact ⟨Nat.le_refl _, Nat.le_refl _⟩
    · have hin := ih c hc (h.child hc) hmc
      have := h.self.of_mem hc
      omega

/-- No child covers all of a node that has two. -/
theorem Ordered.not_spans (h : n.Ordered) (hlen : 2 ≤ n.children.length) (hc : c ∈ n.children) :
    c.spans n.extent.startByte n.extent.endByte = false := by
  unfold Ordered at h
  obtain ⟨a, b, rest, he⟩ : ∃ a b rest, n.children = a :: b :: rest := by
    rcases hn : n.children with _ | ⟨a, _ | ⟨b, rest⟩⟩
    · rw [hn] at hlen
      exact absurd hlen (by decide)
    · rw [hn] at hlen
      exact absurd hlen (by decide : ¬ 2 ≤ 1)
    · exact ⟨a, b, rest, rfl⟩
  rw [he] at h hc
  obtain ⟨ha, hane, hrest⟩ := h
  have hb := hrest.1
  have hbne := hrest.2.1
  have hble := hrest.2.2.le
  rcases List.mem_cons.1 hc with rfl | hc
  · simp only [spans, Extent.spans, Bool.and_eq_false_iff, decide_eq_false_iff_not]
    omega
  · have := hrest.of_mem (List.mem_map_of_mem hc)
    simp only [spans, Extent.spans, Bool.and_eq_false_iff, decide_eq_false_iff_not]
    omega

-- ================================================================ lookups

theorem spans_iff {start stop : Nat} :
    n.spans start stop = true ↔ n.extent.startByte ≤ start ∧ stop ≤ n.extent.endByte := by
  simp only [spans, Extent.spans, Bool.and_eq_true, decide_eq_true_eq]

/-- Among nodes that follow each other, the one that spans a range is the
one a trail goes on with. -/
theorem trailAmong_eq {lo hi start stop : Nat} {ns : List Node}
    (h : InOrder lo hi (ns.map extent)) (hne : start < stop) (hc : c ∈ ns)
    (hspans : c.spans start stop = true) : trailAmong start stop ns = c.trail start stop := by
  induction ns generalizing lo with
  | nil => cases hc
  | cons a rest ih =>
    obtain ⟨hlo, ha, hrest⟩ := h
    rw [trailAmong]
    rcases List.mem_cons.1 hc with rfl | hc
    · rw [if_pos hspans]
    · have hin := hrest.of_mem (List.mem_map_of_mem hc)
      have hout : ¬ a.spans start stop = true := by
        rw [spans_iff] at hspans ⊢
        omega
      rw [if_neg hout]
      exact ih hrest hc

theorem trailAmong_eq_nil {start stop : Nat} {ns : List Node}
    (h : ∀ c ∈ ns, c.spans start stop = false) : trailAmong start stop ns = [] := by
  induction ns with
  | nil => rfl
  | cons a rest ih =>
    rw [List.forall_mem_cons] at h
    rw [trailAmong, h.1]
    exact ih h.2

/-- The trail of a node's own range ends at the node, if no child of the node
covers it whole. -/
theorem getLast?_trail (h : n.All Ordered) (hm : m ∈ n.preorder)
    (hne : m.extent.startByte < m.extent.endByte)
    (hno : ∀ c ∈ m.children, c.spans m.extent.startByte m.extent.endByte = false) :
    (n.trail m.extent.startByte m.extent.endByte).getLast? = some m := by
  induction n using children_induction with
  | step n ih =>
    rcases mem_preorder_iff.1 hm with rfl | ⟨c, hc, hmc⟩
    · rw [trail_eq, trailAmong_eq_nil hno]
      rfl
    · have hin := within_of_mem_preorder (h.child hc) hmc
      have htrail := trailAmong_eq h.self hne hc (spans_iff.2 hin)
      rw [trail_eq, htrail, List.getLast?_cons, ih c hc (h.child hc) hmc]
      rfl

/-- A lookup of the range of a node that no child of it covers whole finds
the node. -/
theorem descendant?_eq (h : n.All Ordered) (hm : m ∈ n.preorder)
    (hne : m.extent.startByte < m.extent.endByte)
    (hno : ∀ c ∈ m.children, c.spans m.extent.startByte m.extent.endByte = false) :
    n.descendant? m.extent.startByte m.extent.endByte = some m := by
  unfold descendant?
  rw [if_pos (spans_iff.2 (within_of_mem_preorder h hm))]
  exact getLast?_trail h hm hne hno

-- ================================================================== pairs

theorem preorders_pairwise {R : Node → Node → Prop} {ns : List Node}
    (h : ∀ c ∈ ns, c.preorder.Pairwise R)
    (hapart : ns.Pairwise fun c d => ∀ x ∈ c.preorder, ∀ y ∈ d.preorder, R x y) :
    (preorders ns).Pairwise R := by
  induction ns with
  | nil => exact List.Pairwise.nil
  | cons c rest ih =>
    rw [List.forall_mem_cons] at h
    rw [List.pairwise_cons] at hapart
    rw [preorders, List.pairwise_append]
    refine ⟨h.1, ih h.2 hapart.2, fun x hx y hy => ?_⟩
    obtain ⟨d, hd, hyd⟩ := mem_preorders.1 hy
    exact hapart.1 d hd x hx y hyd

/-- A relation between the nodes of a tree, each with the ones after it: it
is enough that it holds of a node with those below it, and of those below a
child with those below a later one. -/
theorem preorder_pairwise {R : Node → Node → Prop}
    (hbelow : ∀ a ∈ n.preorder, ∀ c ∈ a.children, ∀ b ∈ c.preorder, R a b)
    (hapart : ∀ a ∈ n.preorder,
      a.children.Pairwise fun c d => ∀ x ∈ c.preorder, ∀ y ∈ d.preorder, R x y) :
    n.preorder.Pairwise R := by
  induction n using children_induction with
  | step n ih =>
    have hchildren : ∀ c ∈ n.children, c.preorder.Pairwise R := fun c hc =>
      ih c hc (fun a ha => hbelow a (mem_preorder_of_child hc ha))
        fun a ha => hapart a (mem_preorder_of_child hc ha)
    have hself := hbelow n (mem_preorder_self n)
    have hsiblings := hapart n (mem_preorder_self n)
    rw [preorder_eq, List.pairwise_cons]
    refine ⟨fun b hb => ?_, preorders_pairwise hchildren hsiblings⟩
    obtain ⟨c, hc, hbc⟩ := mem_preorders.1 hb
    exact hself c hc b hbc

/-- Nodes that follow each other are apart. -/
theorem pairwise_apart {lo hi : Nat} {ns : List Node} (h : InOrder lo hi (ns.map extent)) :
    ns.Pairwise fun c d => c.extent.endByte ≤ d.extent.startByte := by
  induction ns generalizing lo with
  | nil => exact List.Pairwise.nil
  | cons a rest ih =>
    rw [List.pairwise_cons]
    exact ⟨fun d hd => (h.2.2.of_mem (List.mem_map_of_mem hd)).1, ih h.2.2⟩

/-- Two nodes among some that follow each other are the same or apart. -/
theorem eq_or_apart {lo hi : Nat} {ns : List Node} {a b : Node}
    (h : InOrder lo hi (ns.map extent)) (ha : a ∈ ns) (hb : b ∈ ns) :
    a = b ∨ a.extent.endByte ≤ b.extent.startByte ∨ b.extent.endByte ≤ a.extent.startByte := by
  induction ns generalizing lo with
  | nil => cases ha
  | cons c rest ih =>
    have hafter {d : Node} (hd : d ∈ rest) : c.extent.endByte ≤ d.extent.startByte :=
      (h.2.2.of_mem (List.mem_map_of_mem hd)).1
    rcases List.mem_cons.1 ha with rfl | ha'
    · rcases List.mem_cons.1 hb with rfl | hb'
      · exact .inl rfl
      · exact .inr (.inl (hafter hb'))
    · rcases List.mem_cons.1 hb with rfl | hb'
      · exact .inr (.inr (hafter ha'))
      · exact ih h.2.2 ha' hb'

end SamScript.Node
