/-
Ways through a tree: every node in order, the nodes around a range of bytes,
and a cursor that remembers how it came to where it is.
-/
import SamScript.Tree.Basic

namespace SamScript.Node

-- ============================================================ every node

mutual

/-- A node and everything below it, parents first. -/
def preorder : Node → List Node
  | n@(.mk _ _ _ _ children) => n :: preorders children

/-- Several trees, one after the other. -/
def preorders : List Node → List Node
  | [] => []
  | n :: rest => preorder n ++ preorders rest

end

theorem sizes_append (a b : List Node) : sizes (a ++ b) = sizes a + sizes b := by
  induction a with
  | nil => simp [sizes]
  | cons n rest ih =>
    simp only [List.cons_append, sizes, ih]
    omega

/-- The nodes that a walk over pending trees comes by: it takes the first of
them and puts its children in front of the others. -/
def walkFrom (pending : List Node) : List Node :=
  match pending with
  | [] => []
  | n :: rest => n :: walkFrom (n.children ++ rest)
termination_by sizes pending
decreasing_by
  rw [sizes, sizes_append, size_eq n]
  omega

/-- A node and everything below it, in the order of a walk. -/
def walk (n : Node) : List Node :=
  walkFrom [n]

-- ====================================================== around a range

mutual

/-- The nodes from this one down to the deepest that spans a range, at each
step the first child that spans it. -/
def trail (start stop : Nat) : Node → List Node
  | n@(.mk _ _ _ _ children) => n :: trailAmong start stop children

def trailAmong (start stop : Nat) : List Node → List Node
  | [] => []
  | n :: rest => if n.spans start stop then trail start stop n else trailAmong start stop rest

end

/-- The deepest node that spans a range of bytes. -/
def descendant? (n : Node) (start stop : Nat) : Option Node :=
  if n.spans start stop then (n.trail start stop).getLast? else none

end SamScript.Node

namespace SamScript

-- =============================================================== cursor

/-- A node together with the nodes above it, the nearest first. -/
structure Cursor where
  node : Node
  above : List Node

namespace Cursor

/-- At the root of a tree. -/
def start (root : Node) : Cursor :=
  ⟨root, []⟩

/-- At the topmost node. -/
def root (c : Cursor) : Cursor :=
  ⟨c.above.getLast?.getD c.node, []⟩

/-- One step up. -/
def parent? (c : Cursor) : Option Cursor :=
  match c.above with
  | [] => none
  | n :: rest => some ⟨n, rest⟩

/-- One step down to a child. -/
def down (c : Cursor) (child : Node) : Cursor :=
  ⟨child, c.node :: c.above⟩

/-- The child at a place among all children. -/
def child? (c : Cursor) (i : Nat) : Option Cursor :=
  c.node.children[i]?.map c.down

/-- The child at a place among the named children. -/
def namedChild? (c : Cursor) (i : Nat) : Option Cursor :=
  c.node.named[i]?.map c.down

/-- The first child that plays a role. -/
def field? (c : Cursor) (field : Field) : Option Cursor :=
  (c.node.child? field).map c.down

/-- The deepest node below this one, or this one, that spans a range. -/
def descendant? (c : Cursor) (start stop : Nat) : Option Cursor :=
  if c.node.spans start stop then
    some ((c.node.trail start stop).tail.foldl down c)
  else none

end Cursor

end SamScript
