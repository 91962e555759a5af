/-
Nodes by address. An address is the way down to a node, the number of a child for
each step, so a node is above another one or the same if its address is a front of
the other's. A lookup by bytes goes down to the first child that spans the range and
never comes back. Where children follow each other that is no loss: no two of them
span the same bytes (`Ordered.eq_of_spans`), so all nodes that span a range lie on
one way down, and the lookup ends at the last of them (`prefix_of_spans`).
-/
import Mathlib.Logic.ExistsUnique
import SamScript.Proofs.Tree.Extents

namespace SamScript.Node

variable {n m c k : Node} {p q : List Nat} {start stop : Nat}

-- ============================================================== addresses

/-- The node at an address below a node. -/
def at? (n : Node) : List Nat → Option Node
  | [] => some n
  | i :: rest =>
    match n.children[i]? with
    | none => none
    | some c => c.at? rest

theorem at?_cons_eq_some {i : Nat} :
    n.at? (i :: p) = some m ↔ ∃ c, n.children[i]? = some c ∧ c.at? p = some m := by
  rw [at?]
  cases n.children[i]? with
  | none => exact ⟨nofun, fun ⟨_, hc, _⟩ => nomatch hc⟩
  | some c => exact ⟨fun h => ⟨c, rfl, h⟩, fun ⟨_, hc, h⟩ => Option.some.inj hc ▸ h⟩

theorem mem_preorder_of_at? (h : n.at? p = some m) : m ∈ n.preorder := by
  induction p generalizing n with
  | nil => exact Option.some.inj h ▸ mem_preorder_self n
  | cons i p ih =>
    obtain ⟨c, hc, hrest⟩ := at?_cons_eq_some.1 h
    exact mem_preorder_of_child (List.mem_of_getElem? hc) (ih hrest)

/-- Every node of a tree has an address. -/
theorem exists_address (h : m ∈ n.preorder) : ∃ p, n.at? p = some m := by
  induction n using children_induction with
  | step n ih =>
    rcases mem_preorder_iff.1 h with rfl | ⟨c, hc, hmc⟩
    · exact ⟨[], rfl⟩
    · obtain ⟨i, hi⟩ := List.mem_iff_getElem?.1 hc
      obtain ⟨p, hp⟩ := ih c hc hmc
      exact ⟨i :: p, at?_cons_eq_some.2 ⟨c, hi, hp⟩⟩

-- ============================================================ one way down

/-- No two children of a node span the same bytes. -/
theorem Ordered.eq_of_spans (h : n.Ordered) (hne : start < stop) {i j : Nat}
    (hi : n.children[i]? = some c) (hj : n.children[j]? = some k)
    (hc : c.spans start stop = true) (hk : k.spans start stop = true) : i = j := by
  -- of two different places one comes first, and the child there ends before the other begins
  have hbefore {i j : Nat} {c k : Node} (hi : n.children[i]? = some c)
      (hj : n.children[j]? = some k) (hlt : i < j) : c.extent.endByte ≤ k.extent.startByte := by
    obtain ⟨hilen, rfl⟩ := List.getElem?_eq_some_iff.1 hi
    obtain ⟨hjlen, rfl⟩ := List.getElem?_eq_some_iff.1 hj
    exact List.pairwise_iff_getElem.1 (pairwise_apart h) i j hilen hjlen hlt
  rw [spans_iff] at hc hk
  rcases Nat.lt_trichotomy i j with hlt | heq | hlt
  · have := hbefore hi hj hlt
    omega
  · exact heq
  · have := hbefore hj hi hlt
    omega

/-- What spans a range lies in a child that spans it. -/
theorem spans_of_at? (h : n.All Ordered) (hk : n.at? p = some k)
    (hspans : k.spans start stop = true) : n.spans start stop = true := by
  have hin := within_of_mem_preorder h (mem_preorder_of_at? hk)
  rw [spans_iff] at hspans ⊢
  omega

/-- Where no child of a node spans a range, every node that spans it is that node or
above it. -/
theorem prefix_of_spans (h : n.All Ordered) (hne : start < stop) (hm : n.at? p = some m)
    (hspans : m.spans start stop = true)
    (hlast : ∀ c ∈ m.children, c.spans start stop = false)
    (hk : n.at? q = some k) (hspans' : k.spans start stop = true) : q <+: p := by
  induction q generalizing n p with
  | nil => exact List.nil_prefix
  | cons j q ih =>
    obtain ⟨d, hd, hbelow⟩ := at?_cons_eq_some.1 hk
    have hdmem := List.mem_of_getElem? hd
    have hdspans := spans_of_at? (h.child hdmem) hbelow hspans'
    cases p with
    | nil =>
      obtain rfl : n = m := Option.some.inj hm
      rw [hlast d hdmem] at hdspans
      cases hdspans
    | cons i p =>
      obtain ⟨c, hc, hbelow'⟩ := at?_cons_eq_some.1 hm
      have hcspans := spans_of_at? (h.child (List.mem_of_getElem? hc)) hbelow' hspans
      obtain rfl : i = j := h.self.eq_of_spans hne hc hd hcspans hdspans
      obtain rfl : c = d := Option.some.inj (hc.symm.trans hd)
      exact List.cons_prefix_cons.2 ⟨rfl, ih (h.child hdmem) hbelow' hbelow⟩

/-- Two addresses of one node are the same: a node that is not empty lies in one
child only, and not in itself. -/
theorem at?_inj (h : n.All Ordered) (hp : n.at? p = some m) (hq : n.at? q = some m) : p = q := by
  -- a node is smaller than those above it
  have hself {n c : Node} {i : Nat} {p : List Nat} (hc : n.children[i]? = some c)
      (hn : c.at? p = some n) : False := by
    have hlt := size_lt_of_mem (List.mem_of_getElem? hc)
    have hle := size_le_of_mem_preorder (mem_preorder_of_at? hn)
    omega
  induction p generalizing n q with
  | nil =>
    cases q with
    | nil => rfl
    | cons j q =>
      obtain ⟨d, hd, hbelow⟩ := at?_cons_eq_some.1 hq
      cases hp
      exact (hself hd hbelow).elim
  | cons i p ih =>
    obtain ⟨c, hc, hcm⟩ := at?_cons_eq_some.1 hp
    cases q with
    | nil =>
      cases hq
      exact (hself hc hcm).elim
    | cons j q =>
      obtain ⟨d, hd, hdm⟩ := at?_cons_eq_some.1 hq
      have hcmem := List.mem_of_getElem? hc
      have hwide := (h.self.of_mem hcmem).2.1
      have hne := Ordered.nonempty (h.child hcmem) hwide m (mem_preorder_of_at? hcm)
      have hspans : m.spans m.extent.startByte m.extent.endByte = true :=
        spans_iff.2 ⟨Nat.le_refl _, Nat.le_refl _⟩
      obtain rfl : i = j := h.self.eq_of_spans hne hc hd
        (spans_of_at? (h.child hcmem) hcm hspans)
        (spans_of_at? (h.child (List.mem_of_getElem? hd)) hdm hspans)
      obtain rfl : c = d := Option.some.inj (hc.symm.trans hd)
      rw [ih (h.child hcmem) hcm hdm]

-- ================================================================ lookups

/-- Among nodes of which some spans a range, a trail goes on with one that does. -/
theorem exists_trailAmong {ns : List Node} (h : ∃ c ∈ ns, c.spans start stop = true) :
    ∃ c ∈ ns, trailAmong start stop ns = c.trail start stop ∧ c.spans start stop = true := by
  induction ns with
  | nil =>
    obtain ⟨c, hc, -⟩ := h
    cases hc
  | cons a rest ih =>
    rw [trailAmong]
    by_cases ha : a.spans start stop = true
    · rw [if_pos ha]
      exact ⟨a, List.mem_cons_self, rfl, ha⟩
    · rw [if_neg ha]
      obtain ⟨c, hc, hspans⟩ := h
      have hrest : c ∈ rest := by
        rcases List.mem_cons.1 hc with rfl | hrest
        · exact absurd hspans ha
        · exact hrest
      obtain ⟨d, hd, htrail, hdspans⟩ := ih ⟨c, hrest, hspans⟩
      exact ⟨d, List.mem_cons_of_mem _ hd, htrail, hdspans⟩

/-- A trail ends at a node that spans the range, no child of which does. -/
theorem exists_last (hspans : n.spans start stop = true) :
    ∃ p m, n.at? p = some m ∧ (n.trail start stop).getLast? = some m ∧
      m.spans start stop = true ∧ ∀ c ∈ m.children, c.spans start stop = false := by
  induction n using children_induction with
  | step n ih =>
    by_cases hdown : ∃ c ∈ n.children, c.spans start stop = true
    · obtain ⟨c, hc, htrail, hcspans⟩ : ∃ c ∈ n.children,
          trailAmong start stop n.children = c.trail start stop ∧ c.spans start stop = true :=
        exists_trailAmong hdown
      obtain ⟨i, hi⟩ := List.mem_iff_getElem?.1 hc
      obtain ⟨p, m, hp, hm, hlast⟩ := ih c hc hcspans
      refine ⟨i :: p, m, at?_cons_eq_some.2 ⟨c, hi, hp⟩, ?_, hlast⟩
      rw [trail_eq, htrail, List.getLast?_cons, hm]
      rfl
    · have hnone : ∀ c ∈ n.children, c.spans start stop = false := fun c hc =>
        Bool.eq_false_iff.2 fun hcspans => hdown ⟨c, hc, hcspans⟩
      refine ⟨[], n, rfl, ?_, hspans, hnone⟩
      rw [trail_eq, trailAmong_eq_nil hnone]
      rfl

theorem descendant?_eq_none_iff :
    n.descendant? start stop = none ↔ n.spans start stop = false := by
  unfold descendant?
  split
  · rename_i hspans
    obtain ⟨p, m, -, hm, -⟩ := exists_last hspans
    rw [hm, hspans]
    exact ⟨nofun, nofun⟩
  · rename_i hspans
    exact ⟨fun _ => Bool.eq_false_iff.2 hspans, fun _ => rfl⟩

/-- A lookup in a node that spans the range finds the lowest node that spans it. -/
theorem exists_lowest (h : n.All Ordered) (hne : start < stop)
    (hspans : n.spans start stop = true) :
    ∃ p m, n.at? p = some m ∧ n.descendant? start stop = some m ∧ m.spans start stop = true ∧
      ∀ q k, n.at? q = some k → k.spans start stop = true → q <+: p := by
  obtain ⟨p, m, hp, hm, hmspans, hlast⟩ := exists_last hspans
  refine ⟨p, m, hp, ?_, hmspans, fun q k hq hk =>
    prefix_of_spans h hne hp hmspans hlast hq hk⟩
  unfold descendant?
  rw [if_pos hspans, hm]

end SamScript.Node

namespace SamScript

/-- A lookup by bytes finds the one deepest node. Below every node of a parsed tree
each node has one address, and what has one is below it. A lookup of some bytes finds nothing just if the node it
begins at does not span them; else it finds a node below that spans them, and every
node below that spans them is that one or above it. So the body of every lambda,
looked up by its range from the root, is what is found. -/
theorem lookup_finds_the_deepest_node (bounds : Bounds) (file : Option String) (source : String)
    (tree : Tree) (h : Tree.ofSource bounds file source = .ok tree) :
    ∀ n ∈ tree.root.preorder,
      (∀ m, m ∈ n.preorder ↔ ∃! p, n.at? p = some m) ∧
      (∀ start stop, start < stop →
        (n.descendant? start stop = none ↔ n.spans start stop = false) ∧
        (n.spans start stop = true →
          ∃ p m, n.at? p = some m ∧ n.descendant? start stop = some m ∧
            m.spans start stop = true ∧
            ∀ q k, n.at? q = some k → k.spans start stop = true → q <+: p)) ∧
      (n.Is .lambdaExpression → ∃ body, n.child? .body = some body ∧ body.Is .statementBlock ∧
        tree.root.descendant? body.extent.startByte body.extent.endByte = some body) := by
  have hwell := Tree.ofSource_wellFormed h
  intro n hn
  have hordered := hwell.ordered.below hn
  refine ⟨fun m => ⟨fun hm => ?_, fun ⟨p, hp, _⟩ => Node.mem_preorder_of_at? hp⟩,
    fun start stop hne => ?_, fun hk => ?_⟩
  · obtain ⟨p, hp⟩ := Node.exists_address hm
    exact ⟨p, hp, fun q hq => Node.at?_inj hordered hq hp⟩
  · exact ⟨Node.descendant?_eq_none_iff, Node.exists_lowest hordered hne⟩
  · obtain ⟨body, hbody, hblock, hmem⟩ := hwell.body_of_lambda hn hk
    exact ⟨body, hbody, hblock, hwell.descendant?_block hmem hblock⟩

/-- A call that is a whole text, as is the statement it makes up, and the body of the
lambda in it. -/
theorem lookup_finds_the_call_and_the_body :
    ∃ tree, Tree.ofSource {} none "f(() => \x7b a \x7d)" = .ok tree ∧
      (∃ p call, tree.root.at? p = some call ∧ call.Is .callExpression ∧
        tree.root.descendant? 0 14 = some call ∧
        ∀ q k, tree.root.at? q = some k → k.spans 0 14 = true → q <+: p) ∧
      ∃ body ∈ tree.root.preorder, body.Is .statementBlock ∧
        tree.root.descendant? body.extent.startByte body.extent.endByte = some body := by
  have hrun : (Tree.ofSource {} none "f(() => \x7b a \x7d)").toOption.any (fun tree =>
      tree.root.spans 0 14 &&
      ((tree.root.descendant? 0 14).any fun call =>
        call.isNamed && call.kind = .callExpression) &&
      tree.root.preorder.any fun n => n.isNamed && n.kind = .lambdaExpression) = true := by
    decide +kernel
  rcases htree : Tree.ofSource {} none "f(() => \x7b a \x7d)" with e | tree
  · rw [htree] at hrun
    cases hrun
  · rw [htree] at hrun
    simp only [Except.toOption, Option.any_some, Bool.and_eq_true, List.any_eq_true,
      decide_eq_true_eq] at hrun
    obtain ⟨⟨hspans, hcall⟩, lambda, hlambda, hk⟩ := hrun
    have hfinds := lookup_finds_the_deepest_node {} none _ tree htree
    refine ⟨tree, rfl, ?_, ?_⟩
    · obtain ⟨-, hlookup, -⟩ := hfinds tree.root (Node.mem_preorder_self _)
      obtain ⟨p, call, hp, hfound, -, hlowest⟩ := (hlookup 0 14 (by decide)).2 hspans
      rw [hfound, Option.any_some, Bool.and_eq_true, decide_eq_true_eq] at hcall
      exact ⟨p, call, hp, hcall, hfound, hlowest⟩
    · obtain ⟨-, -, hbody⟩ := hfinds lambda hlambda
      obtain ⟨body, -, hblock, hfound⟩ := hbody hk
      exact ⟨body, Node.mem_preorder_of_descendant? hfound, hblock, hfound⟩

end SamScript
