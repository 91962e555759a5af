/-
The order in which a walk comes by the nodes of a tree. A walk keeps the nodes that
are still to be visited, takes the first of them and puts its children in front of
the others. What it will come by is at every step what is below the pending nodes,
each parent before its children (`walkFrom_eq`).

A node that occurs twice in a tree has two addresses, so visits are counted by
address: `places` lists the addresses of a tree in the order of a walk
(`map_at?_places`), all of them (`mem_places`), and in strictly increasing order
(`places_increasing`), so none comes again and none comes before one above it.
-/
import SamScript.Proofs.Tree.Address

namespace SamScript.Node

variable {n m c : Node} {p q : List Nat}

-- ================================================================= the walk

theorem preorders_append (a b : List Node) : preorders (a ++ b) = preorders a ++ preorders b := by
  induction a with
  | nil => rfl
  | cons n rest ih => rw [List.cons_append, preorders, preorders, ih, List.append_assoc]

/-- The first of some pending nodes comes first, and then what is below its children
and the other pending nodes. -/
theorem preorders_cons (n : Node) (rest : List Node) :
    preorders (n :: rest) = n :: preorders (n.children ++ rest) := by
  rw [preorders, preorder_eq, preorders_append, List.cons_append]

/-- A walk over pending nodes comes by what is below them. -/
theorem walkFrom_eq (pending : List Node) : walkFrom pending = preorders pending := by
  fun_induction walkFrom pending with
  | case1 => rfl
  | case2 n rest ih => rw [preorders_cons, ih]

theorem walk_eq (n : Node) : n.walk = n.preorder := by
  rw [walk, walkFrom_eq, preorders, preorders, List.append_nil]

/-- A walk takes one step for each node. -/
theorem length_walkFrom (pending : List Node) : (walkFrom pending).length = sizes pending := by
  fun_induction walkFrom pending with
  | case1 => rfl
  | case2 n rest ih =>
    rw [List.length_cons, ih, sizes_append, sizes, size_eq]
    omega

-- ================================================================ addresses

mutual

/-- The addresses of a node and of everything below it, parents first. -/
def places : Node → List (List Nat)
  | .mk _ _ _ _ children => [] :: placesFrom 0 children

/-- The addresses below some children of a node, the first of which is child `i`. -/
def placesFrom (i : Nat) : List Node → List (List Nat)
  | [] => []
  | n :: rest => (places n).map (i :: ·) ++ placesFrom (i + 1) rest

end

theorem places_eq (n : Node) : n.places = [] :: placesFrom 0 n.children := by
  cases n
  rw [places]
  rfl

theorem mem_placesFrom {i : Nat} {ns : List Node} :
    q ∈ placesFrom i ns ↔ ∃ j c p, ns[j]? = some c ∧ p ∈ c.places ∧ q = (i + j) :: p := by
  induction ns generalizing i with
  | nil => simp [placesFrom]
  | cons n rest ih =>
    rw [placesFrom, List.mem_append, List.mem_map, ih]
    constructor
    · rintro (⟨p, hp, rfl⟩ | ⟨j, c, p, hc, hp, rfl⟩)
      · exact ⟨0, n, p, rfl, hp, rfl⟩
      · exact ⟨j + 1, c, p, hc, hp, by rw [Nat.add_right_comm, Nat.add_assoc]⟩
    · rintro ⟨j, c, p, hc, hp, rfl⟩
      cases j with
      | zero =>
        cases hc
        exact .inl ⟨p, hp, rfl⟩
      | succ j => exact .inr ⟨j, c, p, hc, hp, by rw [Nat.add_right_comm, Nat.add_assoc]⟩

/-- The places of a tree are the addresses at which it has a node. -/
theorem mem_places : p ∈ n.places ↔ (n.at? p).isSome := by
  induction p generalizing n with
  | nil => simp [places_eq, at?]
  | cons i p ih =>
    rw [places_eq, List.mem_cons, mem_placesFrom, Option.isSome_iff_exists]
    constructor
    · rintro (h | ⟨j, c, q, hc, hq, h⟩)
      · cases h
      · obtain ⟨rfl, rfl⟩ := List.cons.inj h
        obtain ⟨m, hm⟩ := Option.isSome_iff_exists.1 (ih.1 hq)
        exact ⟨m, at?_cons_eq_some.2 ⟨c, by rwa [Nat.zero_add], hm⟩⟩
    · rintro ⟨m, hm⟩
      obtain ⟨c, hc, hcm⟩ := at?_cons_eq_some.1 hm
      refine .inr ⟨i, c, p, hc, ih.2 (Option.isSome_iff_exists.2 ⟨m, hcm⟩), ?_⟩
      rw [Nat.zero_add]

theorem placesFrom_increasing {ns : List Node}
    (h : ∀ c ∈ ns, c.places.Pairwise (· < ·)) (i : Nat) :
    (placesFrom i ns).Pairwise (· < ·) := by
  induction ns generalizing i with
  | nil => exact List.Pairwise.nil
  | cons n rest ih =>
    rw [List.forall_mem_cons] at h
    refine List.pairwise_append.2 ⟨List.pairwise_map.2 (h.1.imp fun hpq => ?_), ih h.2 (i + 1), ?_⟩
    · exact List.cons_lt_cons_iff.2 (.inr ⟨rfl, hpq⟩)
    · intro p hp q hq
      obtain ⟨p, -, rfl⟩ := List.mem_map.1 hp
      obtain ⟨j, c, q, -, -, rfl⟩ := mem_placesFrom.1 hq
      exact List.cons_lt_cons_iff.2 (.inl (by omega))

/-- The places of a tree come in increasing order: those above a node before it, and
those of a child before those of the next. -/
theorem places_increasing (n : Node) : n.places.Pairwise (· < ·) := by
  induction n using children_induction with
  | step n ih =>
    rw [places_eq]
    refine List.pairwise_cons.2 ⟨fun q hq => ?_, placesFrom_increasing ih 0⟩
    obtain ⟨j, c, p, -, -, rfl⟩ := mem_placesFrom.1 hq
    exact List.nil_lt_cons _ _

/-- No address comes again, and none comes before one above it. -/
theorem places_apart (n : Node) : n.places.Pairwise fun p q => ¬q <+: p :=
  (places_increasing n).imp fun hlt hprefix => hprefix.le hlt

theorem at?_cons {i : Nat} (h : n.children[i]? = some c) (p : List Nat) :
    n.at? (i :: p) = c.at? p := by
  rw [at?, h]

theorem map_at?_placesFrom {ns : List Node} (h : ∀ c ∈ ns, c.places.map c.at? = c.preorder.map some)
    {i : Nat} (hns : ∀ j, n.children[i + j]? = ns[j]?) :
    (placesFrom i ns).map n.at? = (preorders ns).map some := by
  induction ns generalizing i with
  | nil => rfl
  | cons c rest ih =>
    rw [List.forall_mem_cons] at h
    have hc : n.children[i]? = some c := hns 0
    have hrest := ih h.2 (i := i + 1) fun j => by
      rw [Nat.add_assoc, Nat.add_comm 1 j]
      exact hns (j + 1)
    have hfirst : n.at? ∘ (i :: ·) = c.at? := funext (at?_cons hc)
    rw [placesFrom, preorders, List.map_append, List.map_append, hrest, List.map_map, hfirst, h.1]

/-- At the places of a tree are its nodes, in the order of a walk. -/
theorem map_at?_places (n : Node) : n.places.map n.at? = n.preorder.map some := by
  induction n using children_induction with
  | step n ih =>
    rw [places_eq, preorder_eq, List.map_cons, List.map_cons,
      map_at?_placesFrom ih fun j => by rw [Nat.zero_add]]
    rfl

-- ==================================================================== above

/-- How many of the nodes above an address are part of the structure. -/
def above (n : Node) (p : List Nat) : Nat :=
  (List.range p.length).countP fun k => (n.at? (p.take k)).any isNamed

theorem above_nil (n : Node) : n.above [] = 0 := rfl

theorem above_cons {i : Nat} (h : n.children[i]? = some c) (hn : n.isNamed = true)
    (p : List Nat) : n.above (i :: p) = c.above p + 1 := by
  have hfirst : ((n.at? ((i :: p).take 0)).any isNamed) = true := hn
  have hrest : ((fun k => (n.at? ((i :: p).take k)).any isNamed) ∘ Nat.succ) =
      fun k => (c.at? (p.take k)).any isNamed :=
    funext fun k => by rw [Function.comp_apply, List.take_succ_cons, at?_cons h]
  rw [above, List.length_cons, List.range_succ_eq_map, List.countP_cons, if_pos hfirst,
    List.countP_map, hrest]
  rfl

end SamScript.Node
