/-
Stretches one after the other. `InOrder` is what tokens of a text, and
children of a node, have in common: they follow each other between two
offsets and none of them is empty.
-/
import SamScript.Tree.Basic

namespace SamScript

/-- Whether stretches follow each other between two offsets, none of them
empty. -/
def InOrder : Nat → Nat → List Extent → Prop
  | lo, hi, [] => lo ≤ hi
  | lo, hi, x :: rest => lo ≤ x.startByte ∧ x.startByte < x.endByte ∧ InOrder x.endByte hi rest

namespace InOrder

variable {lo hi mid : Nat} {x y : Extent} {xs ys : List Extent}

theorem le (h : InOrder lo hi xs) : lo ≤ hi := by
  induction xs generalizing lo with
  | nil => exact h
  | cons x rest ih =>
    obtain ⟨hlo, hx, hrest⟩ := h
    have := ih hrest
    omega

/-- More room on either side does no harm. -/
theorem widen {lo' hi' : Nat} (h : InOrder lo hi xs) (hlo : lo' ≤ lo) (hhi : hi ≤ hi') :
    InOrder lo' hi' xs := by
  induction xs generalizing lo lo' with
  | nil => exact Nat.le_trans hlo (Nat.le_trans h hhi)
  | cons x rest ih => exact ⟨Nat.le_trans hlo h.1, h.2.1, ih h.2.2 (Nat.le_refl _)⟩

theorem append (hx : InOrder lo mid xs) (hy : InOrder mid hi ys) : InOrder lo hi (xs ++ ys) := by
  induction xs generalizing lo with
  | nil => exact hy.widen hx (Nat.le_refl _)
  | cons x rest ih => exact ⟨hx.1, hx.2.1, ih hx.2.2⟩

theorem of_append (h : InOrder lo hi (xs ++ ys)) :
    ∃ mid, InOrder lo mid xs ∧ InOrder mid hi ys := by
  induction xs generalizing lo with
  | nil => exact ⟨lo, Nat.le_refl _, h⟩
  | cons x rest ih =>
    obtain ⟨hlo, hx, hrest⟩ := h
    obtain ⟨mid, hrest, hy⟩ := ih hrest
    exact ⟨mid, ⟨hlo, hx, hrest⟩, hy⟩

/-- Each stretch lies between the two offsets and is not empty. -/
theorem of_mem (h : InOrder lo hi xs) (hx : x ∈ xs) :
    lo ≤ x.startByte ∧ x.startByte < x.endByte ∧ x.endByte ≤ hi := by
  induction xs generalizing lo with
  | nil => cases hx
  | cons y rest ih =>
    obtain ⟨hlo, hy, hrest⟩ := h
    rcases List.mem_cons.1 hx with rfl | hx
    · exact ⟨hlo, hy, hrest.le⟩
    · have := ih hrest hx
      omega

/-- Stretches reach from the start of the first to the end of the last. -/
theorem through (h : InOrder lo hi (x :: xs)) :
    InOrder (x.through (xs.getLast?.getD x)).startByte (x.through (xs.getLast?.getD x)).endByte
      (x :: xs) := by
  refine ⟨Nat.le_refl _, h.2.1, ?_⟩
  have hrest := h.2.2
  clear h
  show InOrder x.endByte (xs.getLast?.getD x).endByte xs
  induction xs generalizing x with
  | nil => exact Nat.le_refl _
  | cons y rest ih =>
    refine ⟨hrest.1, hrest.2.1, ?_⟩
    have := ih hrest.2.2
    rw [List.getLast?_cons, Option.getD_some]
    exact this

/-- The stretch from the first to the last lies where they lie. -/
theorem span_through (h : InOrder lo hi (x :: xs)) :
    InOrder lo hi [x.through (xs.getLast?.getD x)] := by
  refine ⟨h.1, ?_, ?_⟩
  · have := h.through.2.1
    have := h.through.2.2.le
    exact Nat.lt_of_lt_of_le ‹_› ‹_›
  · cases hlast : xs.getLast? with
    | none => exact (h.of_mem List.mem_cons_self).2.2
    | some y => exact (h.of_mem (List.mem_cons_of_mem _ (List.mem_of_getLast? hlast))).2.2

end InOrder

end SamScript
