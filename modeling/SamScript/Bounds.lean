/-
How deep a run may nest. Recursion needs room on the stack of whatever
machine carries it out; a run that needs more than the bounds allow ends in
an error of its own kind. Without bounds nothing ends that way.
-/
namespace SamScript

/-- How deep each kind of nesting may go; `none` lets it go as deep as it
likes. -/
structure Bounds where
  /-- Brackets in a program. -/
  brackets : Option Nat := none
  /-- Operands of one expression, one inside the other. -/
  operands : Option Nat := none
  /-- Calls of functions that have not returned. -/
  calls : Option Nat := none
  /-- Arrays and objects in a JSON text. -/
  json : Option Nat := none
  deriving Repr

/-- The bounds of a run in one thread with an ordinary stack. -/
def Bounds.ordinary : Bounds :=
  { brackets := some 400, operands := some 400, calls := some 400, json := some 900 }

end SamScript
