/-
What is below what. `preorder` lists a node and everything below it; here it
is read as a relation, and as a way to say that something holds all through
a tree (`All`), which goes down to children and to whatever a lookup by bytes
finds.
-/
import SamScript.Tree.Walk

namespace SamScript.Node

-- ========================================================== equality

mutual

/-- Whether two nodes are the same, with all that is below them. -/
def decEq : (a b : Node) → Decidable (a = b)
  | .mk kind isNamed field extent children, .mk kind' isNamed' field' extent' children' =>
    have := decEqs children children'
    decidable_of_iff (kind = kind' ∧ isNamed = isNamed' ∧ field = field' ∧ extent = extent' ∧
      children = children') (by rw [mk.injEq])

def decEqs : (as bs : List Node) → Decidable (as = bs)
  | [], [] => isTrue rfl
  | [], _ :: _ => isFalse nofun
  | _ :: _, [] => isFalse nofun
  | a :: as, b :: bs =>
    have := decEq a b
    have := decEqs as bs
    decidable_of_iff (a = b ∧ as = bs) (by rw [List.cons.injEq])

end

instance : DecidableEq Node := decEq

variable {n m c : Node} {field : Field} {p : Node → Prop}

-- ========================================================= membership

theorem mem_preorders {ns : List Node} : m ∈ preorders ns ↔ ∃ n ∈ ns, m ∈ n.preorder := by
  induction ns with
  | nil => simp [preorders]
  | cons a rest ih => simp [preorders, ih]

theorem preorder_eq (n : Node) : n.preorder = n :: preorders n.children := by
  cases n
  rw [preorder]
  rfl

theorem mem_preorder_iff : m ∈ n.preorder ↔ m = n ∨ ∃ c ∈ n.children, m ∈ c.preorder := by
  rw [preorder_eq, List.mem_cons, mem_preorders]

theorem mem_preorder_self (n : Node) : n ∈ n.preorder :=
  mem_preorder_iff.2 (.inl rfl)

theorem mem_preorder_of_child (hc : c ∈ n.children) (hm : m ∈ c.preorder) : m ∈ n.preorder :=
  mem_preorder_iff.2 (.inr ⟨c, hc, hm⟩)

/-- Induction down a tree: from all children to their parent. -/
@[elab_as_elim]
theorem children_induction {motive : Node → Prop} (n : Node)
    (step : ∀ n : Node, (∀ c ∈ n.children, motive c) → motive n) : motive n := by
  induction hk : n.size using Nat.strongRecOn generalizing n with
  | ind k ih =>
    refine step n fun c hc => ih c.size ?_ c rfl
    rw [← hk]
    exact size_lt_of_mem hc

/-- Below is transitive. -/
theorem mem_preorder_trans {a b : Node} (hb : b ∈ a.preorder) (hm : m ∈ b.preorder) :
    m ∈ a.preorder := by
  induction a using children_induction with
  | step a ih =>
    rcases mem_preorder_iff.1 hb with rfl | ⟨c, hc, hbc⟩
    · exact hm
    · exact mem_preorder_of_child hc (ih c hc hbc)

/-- A child of a node below is below. -/
theorem mem_preorder_child {a b : Node} (hb : b ∈ a.preorder) (hc : c ∈ b.children) :
    c ∈ a.preorder :=
  mem_preorder_trans hb (mem_preorder_of_child hc (mem_preorder_self c))

/-- What is below a node is no larger. -/
theorem size_le_of_mem_preorder (h : m ∈ n.preorder) : m.size ≤ n.size := by
  induction n using children_induction with
  | step n ih =>
    rcases mem_preorder_iff.1 h with rfl | ⟨c, hc, hm⟩
    · exact Nat.le_refl _
    · exact Nat.le_trans (ih c hc hm) (Nat.le_of_lt (size_lt_of_mem hc))

theorem mem_children_of_child? (h : n.child? field = some c) : c ∈ n.children :=
  List.mem_of_find?_eq_some h

theorem mem_children_of_named (h : c ∈ n.named) : c ∈ n.children :=
  (List.mem_filter.1 h).1

theorem mem_children_of_inRole (h : c ∈ n.inRole field) : c ∈ n.children :=
  (List.mem_filter.1 h).1

-- ================================================= all through a tree

/-- Whether something holds of a node and of everything below it. -/
def All (p : Node → Prop) (n : Node) : Prop :=
  ∀ m ∈ n.preorder, p m

theorem All.self (h : n.All p) : p n :=
  h n (mem_preorder_self n)

theorem all_iff : n.All p ↔ p n ∧ ∀ c ∈ n.children, c.All p := by
  constructor
  · exact fun h => ⟨h.self, fun c hc m hm => h m (mem_preorder_of_child hc hm)⟩
  · rintro ⟨hn, hchildren⟩ m hm
    rcases mem_preorder_iff.1 hm with rfl | ⟨c, hc, hmc⟩
    · exact hn
    · exact hchildren c hc m hmc

/-- A node in another role has the same nodes below it. -/
theorem All.inField (h : n.All p) (hn : p (n.inField field)) : (n.inField field).All p := by
  refine all_iff.2 ⟨hn, ?_⟩
  cases n
  exact (all_iff.1 h).2

theorem All.below (h : n.All p) (hm : m ∈ n.preorder) : m.All p :=
  fun _ hk => h _ (mem_preorder_trans hm hk)

theorem All.child (h : n.All p) (hc : c ∈ n.children) : c.All p :=
  h.below (mem_preorder_of_child hc (mem_preorder_self c))

-- ================================================ what a lookup finds

theorem trail_eq (start stop : Nat) (n : Node) :
    n.trail start stop = n :: trailAmong start stop n.children := by
  cases n
  rw [trail]
  rfl

mutual

theorem mem_preorder_of_mem_trail {start stop : Nat} :
    ∀ (n : Node), m ∈ n.trail start stop → m ∈ n.preorder
  | .mk _ _ _ _ children, h => by
    rw [trail, List.mem_cons] at h
    rw [preorder, List.mem_cons]
    rcases h with rfl | h
    · exact .inl rfl
    · exact .inr (mem_preorders_of_mem_trailAmong children h)

theorem mem_preorders_of_mem_trailAmong {start stop : Nat} :
    ∀ (ns : List Node), m ∈ trailAmong start stop ns → m ∈ preorders ns
  | [], h => by simp [trailAmong] at h
  | n :: rest, h => by
    rw [trailAmong] at h
    rw [preorders, List.mem_append]
    split at h
    · exact .inl (mem_preorder_of_mem_trail n h)
    · exact .inr (mem_preorders_of_mem_trailAmong rest h)

end

/-- A lookup by bytes finds a node of the tree it looks in. -/
theorem mem_preorder_of_descendant? {start stop : Nat} (h : n.descendant? start stop = some m) :
    m ∈ n.preorder := by
  unfold descendant? at h
  split at h
  · exact mem_preorder_of_mem_trail n (List.mem_of_getLast? h)
  · cases h

end SamScript.Node
