/-
What a reader makes of the front of an input. Every reader of this library
that calls itself returns the rest of its input together with the proof that
the rest is shorter than a bound, usually the length it was given; that
proof is what ends the recursion, so no reader needs fuel.
-/
namespace SamScript

/-- A value read from the front of an input, and what comes after it. -/
structure Reading (σ : Type u) (α : Type v) (bound : Nat) where
  value : α
  rest : List σ
  shorter : rest.length < bound

namespace Reading

variable {σ : Type u} {α : Type v} {β : Type w} {m n : Nat}

/-- The same reading under a larger bound. -/
def widen (r : Reading σ α m) (h : m ≤ n) : Reading σ α n :=
  ⟨r.value, r.rest, Nat.lt_of_lt_of_le r.shorter h⟩

/-- The same rest with another value. -/
def map (f : α → β) (r : Reading σ α n) : Reading σ β n :=
  ⟨f r.value, r.rest, r.shorter⟩

/-- The value and the rest alone. -/
def pair (r : Reading σ α n) : α × List σ :=
  (r.value, r.rest)

@[simp] theorem pair_widen (r : Reading σ α m) (h : m ≤ n) : (r.widen h).pair = r.pair := rfl

end Reading

theorem length_dropWhile_le {σ : Type u} (p : σ → Bool) (l : List σ) :
    (l.dropWhile p).length ≤ l.length := by
  induction l with
  | nil => simp
  | cons a l ih =>
    rw [List.dropWhile_cons]
    split
    · exact Nat.le_succ_of_le ih
    · exact Nat.le_refl _

/-- What is left after dropping, if it begins with some element, leaves less
than there was once that element is taken too. -/
theorem length_of_dropWhile_eq {σ : Type u} {p : σ → Bool} {a : σ} {l rest : List σ}
    (h : l.dropWhile p = a :: rest) : rest.length < l.length := by
  have := length_dropWhile_le p l
  rw [h] at this
  exact this

end SamScript
