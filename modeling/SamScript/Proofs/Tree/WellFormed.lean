/-
What holds of every parsed tree. `WellFormed` gathers what the grammar and
the places of tokens give: children in order, every node of the shape of its
kind, every node's bytes a text, every mark what its bytes spell, with nothing
below it. From it follows what calls rely on: a block is found again by its
range (`WellFormed.descendant?_block`), and the bodies of two lambdas never
cover the same range (`WellFormed.bodies_apart`).
-/
import SamScript.Proofs.Tree.Lookup
import SamScript.Proofs.Tree.Shape
import SamScript.Proofs.Tree.Soundness

namespace SamScript

open Node

/-- Whether a node's bytes are a text. -/
def Node.Readable (source : List UInt8) (n : Node) : Prop :=
  ∃ text, Utf8.decode? (n.bytes source) = .ok text

/-- What holds of every parsed tree. -/
structure Tree.WellFormed (t : Tree) : Prop where
  root : t.root.Is .sourceFile
  ordered : t.root.All Ordered
  shaped : t.root.All Shaped
  readable : t.root.All (Readable t.source)
  marked : t.root.All (Marked t.source)
  bare : t.root.All Bare

-- =================================================================== roots

theorem laid_gathered {ts : List Token} {declared : List Node} (h : Laid ts declared) :
    Laid ts (gathered declared) := by
  cases declared with
  | nil => exact h
  | cons d ds => exact h.branch _

theorem gathered_shaped {declared : List Node} (h : ∀ n ∈ declared, n.Is .interface_)
    (hdeclared : ∀ n ∈ declared, n.All Shaped) : ∀ n ∈ gathered declared, n.All Shaped := by
  cases declared with
  | nil => exact hdeclared
  | cons d ds =>
    refine List.forall_mem_singleton.2 (Node.all_iff.2 ⟨fun _ => ?_, hdeclared⟩)
    exact named_of_marks fun c hc => .inr (h c hc)

/-- The root has interface declarations under one node, if any, and then
statements. -/
theorem shape_root {stop : Span} {declared inner : List Node}
    (hinner : ∀ n ∈ inner, n.IsStatement) :
    (rootNode stop declared inner).Shape .sourceFile := by
  have hnamed : inner.filter isNamed = inner := List.filter_eq_self.2 fun n hn => (hinner n hn).1
  intro first rest he
  cases declared with
  | nil =>
    change inner.filter isNamed = _ at he
    rw [hnamed] at he
    subst he
    rw [List.forall_mem_cons] at hinner
    exact ⟨.inr hinner.1, hinner.2⟩
  | cons d ds =>
    change branch .interfaces d ds :: inner.filter isNamed = _ at he
    rw [hnamed] at he
    obtain ⟨rfl, rfl⟩ := List.cons.inj he
    exact ⟨.inl ⟨rfl, rfl⟩, hinner⟩

theorem Extent.Placed.readable {whole : List Char} {n : Node} (h : n.extent.Placed whole) :
    n.Readable (Utf8.encode whole) := by
  obtain ⟨s, hstart, hstop, hx⟩ := h
  unfold Readable Node.bytes
  rw [hx]
  exact hstart.boundary.decode? hstop.boundary

/-- Every node of a parsed tree begins and ends at places of the text. -/
theorem Tree.ofSource_placed {bounds : Bounds} {file : Option String} {source : String}
    {tree : Tree} (h : Tree.ofSource bounds file source = .ok tree) :
    tree.root.All (·.extent.Placed source.toList) := by
  obtain ⟨-, list, htokens, ds, is, declared, inner, hlist, hd, hi, hroot⟩ :=
    Tree.ofSource_spells h
  obtain ⟨-, hstands, hstop⟩ := tokenize_places htokens
  have hlaid : Laid list.tokens (gathered declared ++ inner) := by
    rw [hlist]
    exact (laid_gathered hd.laid).append hi.laid
  have hwhole : (rootNode list.stop declared inner).extent.Placed source.toList :=
    ⟨⟨{}, list.stop.stop, none⟩, ⟨[], _, rfl, rfl⟩, ⟨source.toList, [], by simp, hstop⟩, rfl⟩
  rw [hroot]
  exact Node.all_iff.2 ⟨hwhole, hlaid.placed hstands⟩

/-- A parsed tree is well-formed. -/
theorem Tree.ofSource_wellFormed {bounds : Bounds} {file : Option String} {source : String}
    {tree : Tree} (h : Tree.ofSource bounds file source = .ok tree) : tree.WellFormed := by
  obtain ⟨hsource, list, htokens, ds, is, declared, inner, hlist, hd, hi, hroot⟩ :=
    Tree.ofSource_spells h
  obtain ⟨hin, hstands, hstop⟩ := tokenize_places htokens
  have hlaid : Laid list.tokens (gathered declared ++ inner) := by
    rw [hlist]
    exact (laid_gathered hd.laid).append hi.laid
  obtain ⟨hchildren, hordered⟩ := hlaid.inOrder hstands hin
  have hend : (rootNode list.stop declared inner).extent.endByte = Utf8.width source.toList := by
    show list.stop.stop.offset = _
    rw [hstop, Position.offset_after]
    exact Nat.zero_add _
  have hdstands : ∀ t ∈ ds, t.Stands source.toList := fun t ht =>
    hstands t (hlist ▸ List.mem_append_left _ ht)
  have histands : ∀ t ∈ is, t.Stands source.toList := fun t ht =>
    hstands t (hlist ▸ List.mem_append_right _ ht)
  refine ⟨?_, ?_, ?_, ?_, ?_, ?_⟩
  · rw [hroot]
    exact ⟨rfl, rfl⟩
  · rw [hroot]
    refine Node.all_iff.2 ⟨?_, hordered⟩
    show InOrder 0 _ ((gathered declared ++ inner).map extent)
    rw [hend]
    exact hchildren
  · rw [hroot]
    refine Node.all_iff.2 ⟨fun _ => shape_root hi.gives, ?_⟩
    exact List.forall_mem_append.2 ⟨gathered_shaped hd.gives (hd.shaped hdstands),
      hi.shaped histands⟩
  · rw [hsource]
    exact fun n hn => (Tree.ofSource_placed h n hn).readable
  · rw [hroot, hsource]
    refine Node.all_iff.2 ⟨fun hn => ?_, hlaid.marked hstands⟩
    cases hn
  · rw [hroot]
    refine Node.all_iff.2 ⟨fun hn => ?_, hlaid.bare hstands⟩
    cases hn

/-- A text that parses has a tree. -/
theorem Tree.exists_of_isOk {bounds : Bounds} {file : Option String} {source : String}
    (h : (Tree.ofSource bounds file source).isOk = true) :
    ∃ tree, Tree.ofSource bounds file source = .ok tree := by
  rcases htree : Tree.ofSource bounds file source with e | tree
  · rw [htree] at h
    cases h
  · exact ⟨tree, rfl⟩

-- ================================================================= blocks

namespace Tree.WellFormed

variable {t : Tree} {b n : Node}

/-- A block has braces, so no child of it covers it whole. -/
theorem block (h : t.WellFormed) (hb : b ∈ t.root.preorder) (hk : b.Is .statementBlock) :
    b.extent.startByte < b.extent.endByte ∧
      ∀ c ∈ b.children, c.spans b.extent.startByte b.extent.endByte = false := by
  have hshape := h.shaped b hb hk.1
  rw [hk.2] at hshape
  have hordered := h.ordered b hb
  refine ⟨?_, fun c hc => hordered.not_spans hshape.1 hc⟩
  obtain ⟨c, hc⟩ := List.exists_mem_of_length_pos (Nat.lt_of_lt_of_le (by decide) hshape.1)
  have := hordered.of_mem hc
  omega

/-- A block is found again by its range. -/
theorem descendant?_block (h : t.WellFormed) (hb : b ∈ t.root.preorder)
    (hk : b.Is .statementBlock) :
    t.root.descendant? b.extent.startByte b.extent.endByte = some b := by
  obtain ⟨hne, hno⟩ := h.block hb hk
  exact descendant?_eq h.ordered hb hne hno

/-- The body of a lambda is a block of the tree. -/
theorem body_of_lambda (h : t.WellFormed) (hn : n ∈ t.root.preorder)
    (hk : n.Is .lambdaExpression) :
    ∃ body, n.child? .body = some body ∧ body.Is .statementBlock ∧ body ∈ t.root.preorder := by
  have hshape := h.shaped n hn hk.1
  rw [hk.2] at hshape
  obtain ⟨body, hbody, hblock⟩ := hshape.1
  have hchild := mem_preorder_of_child (mem_children_of_child? hbody) (mem_preorder_self body)
  exact ⟨body, hbody, hblock, mem_preorder_trans hn hchild⟩

end Tree.WellFormed

-- ================================================================ lambdas

/-- Whether a node is a lambda. -/
def Node.isLambda (n : Node) : Bool :=
  n.isNamed && n.kind = .lambdaExpression

theorem Node.isLambda_iff {n : Node} : n.isLambda = true ↔ n.Is .lambdaExpression := by
  rw [isLambda, Bool.and_eq_true, decide_eq_true_eq]
  rfl

/-- The range of a lambda's body. -/
def Node.bodyRange? (n : Node) : Option (Nat × Nat) :=
  (n.child? .body).map range

namespace Tree.WellFormed

variable {t : Tree} {n : Node}

/-- The range of a lambda's body: it is not empty and lies in the lambda. -/
theorem bodyRange?_eq (h : t.WellFormed) (hn : n ∈ t.root.preorder) (hk : n.isLambda = true) :
    ∃ body ∈ n.children, body.Is .statementBlock ∧ n.bodyRange? = some body.range ∧
      n.extent.startByte ≤ body.extent.startByte ∧ body.extent.startByte < body.extent.endByte ∧
      body.extent.endByte ≤ n.extent.endByte := by
  obtain ⟨body, hbody, hblock, hmem⟩ := h.body_of_lambda hn (isLambda_iff.1 hk)
  have hchild := mem_children_of_child? hbody
  refine ⟨body, hchild, hblock, ?_, (h.ordered n hn).of_mem hchild⟩
  rw [bodyRange?, hbody]
  rfl

/-- The bodies of two lambdas of a tree never cover the same range. -/
theorem bodies_apart (h : t.WellFormed) :
    (t.root.preorder.filter isLambda).Pairwise fun a b => a.bodyRange? ≠ b.bodyRange? := by
  rw [List.pairwise_filter]
  have hwithin {a c : Node} (ha : a ∈ t.root.preorder) (hc : c ∈ a.preorder) :=
    within_of_mem_preorder (h.ordered.below ha) hc
  refine preorder_pairwise (fun a ha c hc b hb hak hbk he => ?_) fun a ha => ?_
  · -- a lambda below another one
    have hbroot := mem_preorder_trans ha (mem_preorder_of_child hc hb)
    have hcroot := mem_preorder_trans ha (mem_preorder_of_child hc (mem_preorder_self c))
    obtain ⟨body, hbody, hblock, hrange, hlo, hne, hhi⟩ := h.bodyRange?_eq ha hak
    obtain ⟨body', -, -, hrange', hlo', hne', hhi'⟩ := h.bodyRange?_eq hbroot hbk
    rw [hrange, hrange'] at he
    obtain ⟨hstart, hstop⟩ := Prod.mk.inj (Option.some.inj he)
    have hbc := hwithin hcroot hb
    rcases eq_or_apart (h.ordered a ha) hc hbody with rfl | hapart
    · -- in its body: then in a child of the body, which does not reach from end to end
      rcases mem_preorder_iff.1 hb with rfl | ⟨d, hd, hbd⟩
      · rw [isLambda_iff, Is, hblock.2] at hbk
        cases hbk.2
      · have hdroot := mem_preorder_trans hcroot (mem_preorder_of_child hd (mem_preorder_self d))
        have hbd := hwithin hdroot hbd
        have hno := (h.block hcroot hblock).2 d hd
        rw [← Bool.not_eq_true, spans_iff] at hno
        omega
    · omega
  · -- lambdas below two siblings
    refine (pairwise_apart (h.ordered a ha)).imp_of_mem fun {c d} hc hd hcd x hx y hy hxk hyk he => ?_
    have hcroot := mem_preorder_trans ha (mem_preorder_of_child hc (mem_preorder_self c))
    have hdroot := mem_preorder_trans ha (mem_preorder_of_child hd (mem_preorder_self d))
    obtain ⟨body, -, -, hrange, hlo, hne, hhi⟩ := h.bodyRange?_eq (mem_preorder_trans hcroot hx) hxk
    obtain ⟨body', -, -, hrange', hlo', hne', hhi'⟩ :=
      h.bodyRange?_eq (mem_preorder_trans hdroot hy) hyk
    rw [hrange, hrange'] at he
    obtain ⟨hstart, hstop⟩ := Prod.mk.inj (Option.some.inj he)
    have hxc := hwithin hcroot hx
    have hyd := hwithin hdroot hy
    omega

end Tree.WellFormed

end SamScript
