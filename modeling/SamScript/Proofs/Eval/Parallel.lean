/-
Two steps side by side. One runs parallel to another (`Run.Parallel`) if from
every state the two come to the same result and the same state, or fail for
the same reason in the same state, unless the first ends in a fault of a kind
after which nothing is asked of the second. No step absorbs a failure, so
such a fault ends the whole run wherever it comes up, and what is made of
parallel steps in the same way is parallel again.
-/
import Mathlib.Data.Option.Basic
import SamScript.Eval.Program

namespace SamScript

variable {φ α β : Type}

-- ================================================================ failures

/-- Whether two failures have one cause, at places that are near each
other. -/
inductive Failure.Alike (near : Place → Place → Prop) : Failure → Failure → Prop
  | fault (cause : EvalFault) {p q : Option Place} (h : Option.Rel near p q) :
      Alike near (.fault cause p) (.fault cause q)
  | abort (cause : Abort) : Alike near (.abort cause) (.abort cause)
  | exhausted : Alike near .exhausted .exhausted

namespace Failure

variable {near : Place → Place → Prop} {e f : Failure}

/-- Giving near places to failures that are alike keeps them alike. -/
theorem Alike.locate (h : e.Alike near f) {p q : Place} (hp : near p q) :
    (e.locate p).Alike near (f.locate q) := by
  cases h with
  | fault cause h =>
    cases h with
    | none => exact .fault cause (.some hp)
    | some h => exact .fault cause (.some h)
  | abort cause => exact .abort cause
  | exhausted => exact .exhausted

/-- Failures that are alike at the same places are the same. -/
theorem Alike.eq (h : e.Alike (· = ·) f) : e = f := by
  cases h with
  | fault cause h =>
    cases h with
    | none => rfl
    | some h => rw [h]
  | abort | exhausted => rfl

/-- Where every place is near itself, every failure is like itself. -/
theorem alike_refl (h : ∀ p, near p p) (e : Failure) : e.Alike near e := by
  cases e with
  | fault cause place =>
    cases place with
    | none => exact .fault cause .none
    | some place => exact .fault cause (.some (h place))
  | abort cause => exact .abort cause
  | exhausted => exact .exhausted

end Failure

namespace Run

-- ================================================================ outcomes

/-- What two steps came to, side by side. -/
inductive Beside (halts : EvalFault → Prop) (near : Place → Place → Prop) :
    Except Failure α × RunState φ → Except Failure α × RunState φ → Prop
  | ok (a : α) (s : RunState φ) : Beside halts near (.ok a, s) (.ok a, s)
  | error {e f : Failure} (h : e.Alike near f) (s : RunState φ) :
      Beside halts near (.error e, s) (.error f, s)
  /-- The first has ended so that nothing is asked of the second. -/
  | halted {cause : EvalFault} (h : halts cause) (place : Option Place) (s : RunState φ)
      (r : Except Failure α × RunState φ) : Beside halts near (.error (.fault cause place), s) r

/-- From every state, what two steps come to is side by side. -/
def Parallel (halts : EvalFault → Prop) (near : Place → Place → Prop) (x y : Run φ α) : Prop :=
  ∀ s, Beside halts near (x s) (y s)

variable {halts : EvalFault → Prop} {near : Place → Place → Prop} {x y : Run φ α}

theorem parallel_pure (a : α) : Parallel halts near (pure a : Run φ α) (pure a) :=
  fun s => .ok a s

theorem parallel_fault (f : EvalFault) : Parallel halts near (fault f : Run φ α) (fault f) :=
  fun s => .error (.fault f .none) s

/-- A fault of the kind runs parallel to anything. -/
theorem parallel_halts {f : EvalFault} (h : halts f) : Parallel halts near (fault f) y :=
  fun s => .halted h none s _

/-- Every step runs parallel to itself. -/
theorem parallel_refl (h : ∀ p, near p p) (x : Run φ α) : Parallel halts near x x := by
  intro s
  rcases x s with ⟨e | a, t⟩
  · exact .error (Failure.alike_refl h e) t
  · exact .ok a t

/-- Steps that run parallel whatever happens, with failures at the same places, are
the same. -/
theorem Parallel.eq (h : Parallel (fun _ => False) (· = ·) x y) : x = y := by
  funext s
  have hbeside := h s
  generalize x s = r, y s = r' at hbeside
  cases hbeside with
  | ok a t => rfl
  | error he t => rw [he.eq]
  | halted hfalse => exact hfalse.elim

-- =========================================================== combinations

theorem Parallel.bind {f g : α → Run φ β} (hx : Parallel halts near x y)
    (hf : ∀ a, Parallel halts near (f a) (g a)) : Parallel halts near (x >>= f) (y >>= g) := by
  intro s
  have h := hx s
  rw [bind_apply, bind_apply]
  generalize x s = r, y s = r' at h
  cases h with
  | ok a t => exact hf a t
  | error h t => exact .error h t
  | halted h place t _ => exact .halted h place t _

theorem Parallel.located (hx : Parallel halts near x y) {p q : Place} (hp : near p q) :
    Parallel halts near (located p x) (located q y) := by
  intro s
  have h := hx s
  unfold Run.located
  generalize x s = r, y s = r' at h
  cases h with
  | ok a t => exact .ok a t
  | error h t => exact .error (h.locate hp) t
  | halted h place t _ => cases place <;> exact .halted h _ t _

theorem Parallel.blamed (hx : Parallel halts near x y) {p q : Place} (hp : near p q) :
    Parallel halts near (Eval.blamed p x) (Eval.blamed q y) := by
  intro s
  have h := hx s
  unfold Eval.blamed
  generalize x s = r, y s = r' at h
  cases h with
  | ok a t => exact .ok a t
  | error h t =>
    cases h with
    | fault cause h => exact .error (.fault cause h) t
    | abort cause => exact .error (.abort cause) t
    | exhausted => exact .error (.fault .stackExhausted (.some hp)) t
  | halted h place t _ => exact .halted h place t _

theorem Parallel.inScope (hx : Parallel halts near x y) (frame : Frame φ) :
    Parallel halts near (inScope frame x) (inScope frame y) := by
  intro s
  have h := hx { s with scopes := s.scopes.push frame }
  unfold Run.inScope
  generalize x _ = r, y _ = r' at h
  cases h with
  | ok a t => exact .ok a _
  | error h t => exact .error h _
  | halted h place t _ => exact .halted h place _ _

theorem Parallel.inCall (hx : Parallel halts near x y) (name : String) :
    Parallel halts near (inCall name x) (inCall name y) := by
  intro s
  have h := hx { s with calls := name :: s.calls }
  unfold Run.inCall
  generalize x _ = r, y _ = r' at h
  cases h with
  | ok a t => exact .ok a _
  | error h t => exact .error h _
  | halted h place t _ => exact .halted h place _ _

end Run

end SamScript
