/-
The steps of evaluation that only look. Reading a node's text, checking its
kind, looking a name up, applying an operator: each ends in a value or a
failure and leaves the state as it was. What evaluation does to the state
is then a matter of the few steps that are not among them. Some do not even
look at the state, and come to the same wherever they are taken (`Settled`).
-/
import SamScript.Eval.Program

namespace SamScript

variable {φ α β : Type}

namespace Run

/-- A step that leaves the state as it is, however it ends. -/
def Still (x : Run φ α) : Prop :=
  ∀ s, (x s).2 = s

-- ========================================================== primitives

theorem still_pure (a : α) : Still (pure a : Run φ α) := fun _ => rfl

theorem still_fail (f : Failure) : Still (fail f : Run φ α) := fun _ => rfl

theorem still_fault (f : EvalFault) : Still (fault f : Run φ α) := fun _ => rfl

theorem still_lift (x : Except Failure α) : Still (lift x : Run φ α) := fun _ => rfl

theorem still_scopes : Still (scopes : Run φ (Scopes φ)) := fun _ => rfl

/-- Looking at the scopes, and then more. -/
theorem scopes_bind (f : Scopes φ → Run φ β) (s : RunState φ) :
    (scopes >>= f) s = f s.scopes s := rfl

theorem still_within (bound : Option Nat) (measure : RunState φ → Nat) :
    Still (within bound measure) := by
  intro s
  unfold within
  split
  · rfl
  · split <;> rfl

/-- The state after looking is the state before. -/
theorem Still.state_eq {x : Run φ α} (hx : Still x) {s t : RunState φ} {r : Except Failure α}
    (h : x s = (r, t)) : t = s := by
  have hs := hx s
  rwa [h] at hs

/-- Looking twice is looking. -/
theorem Still.bind {x : Run φ α} {f : α → Run φ β} (hx : Still x) (hf : ∀ a, Still (f a)) :
    Still (x >>= f) := by
  intro s
  rw [bind_apply]
  have h := hx s
  rcases hr : x s with ⟨r | a, t⟩
  · rw [hr] at h
    exact h
  · rw [hr] at h
    subst h
    exact hf a t

end Run

-- =============================================================== leaves

open Run

theorem Env.still_text (env : Env φ) (n : Node) : Still (env.text n) := by
  unfold Env.text
  split
  · exact still_pure _
  · exact still_fail _

theorem still_misshapen (expected : String) (found : NodeKind) :
    Still (misshapen expected found : Run φ α) :=
  still_fault _

theorem expectKind_of_eq {kind : NodeKind} {n : Node} (h : n.kind = kind) :
    (expectKind kind (some n) : Run φ Node) = pure n :=
  if_pos h

theorem expectKind_of_ne {kind : NodeKind} {n : Node} (h : n.kind ≠ kind) :
    (expectKind kind (some n) : Run φ Node) = misshapen kind.text n.kind :=
  if_neg h

theorem still_expectKind (kind : NodeKind) (n : Option Node) :
    Still (expectKind kind n : Run φ Node) := by
  cases n with
  | none => exact still_fault _
  | some n =>
    by_cases h : n.kind = kind
    · rw [expectKind_of_eq h]
      exact still_pure _
    · rw [expectKind_of_ne h]
      exact still_misshapen _ _

namespace Eval

theorem still_piece (env : Env φ) (n : Node) : Still (piece env n) := by
  unfold piece
  split
  · exact .bind (env.still_text _) fun _ => still_pure _
  · exact .bind (env.still_text _) fun _ => still_pure _
  · exact still_misshapen _ _

theorem still_pieces (env : Env φ) (ns : List Node) : Still (pieces env ns) := by
  induction ns with
  | nil => exact still_pure _
  | cons n rest ih => exact .bind (still_piece _ _) fun _ => .bind ih fun _ => still_pure _

theorem still_stringText (env : Env φ) (n : Node) : Still (stringText env n) :=
  .bind (still_expectKind _ _) fun _ => .bind (still_pieces _ _) fun _ => still_pure _

theorem still_number (text : String) : Still (number text : Run φ (Value φ)) := by
  unfold number
  split
  · exact still_fail _
  · exact still_fault _
  · exact still_pure _

theorem still_literal (env : Env φ) (n : Node) : Still (literal env n) := by
  unfold literal
  split
  · exact still_fault _
  · split
    · exact .bind (env.still_text _) fun _ => still_number _
    · exact .bind (still_stringText _ _) fun _ => still_pure _
    · exact still_misshapen _ _

theorem still_variableValue (env : Env φ) (n : Node) : Still (variableValue env n) := by
  refine .bind (env.still_text _) fun _ => .bind still_scopes fun _ => ?_
  split
  · exact still_pure _
  · exact still_fault _

theorem still_orFault (x : Except EvalFault (Value φ)) : Still (orFault x) :=
  still_lift _

theorem still_applyOperator [DecidableEq φ] (text : String) (a b : Value φ) :
    Still (applyOperator text a b) := by
  unfold applyOperator
  split
  · exact still_fault _
  · split
    · exact still_pure _
    · exact still_fault _
    · exact still_fail _

theorem still_parameterNames (env : Env φ) (ns : List Node) : Still (parameterNames env ns) := by
  induction ns with
  | nil => exact still_pure _
  | cons n rest ih =>
    exact .bind (still_expectKind _ _) fun _ => .bind (env.still_text _) fun _ =>
      .bind ih fun _ => still_pure _

theorem still_lambda (env : Env φ) (n : Node) : Still (lambda env n) := by
  unfold lambda
  split
  · exact still_misshapen _ _
  · exact .bind (still_expectKind _ _) fun _ => .bind (still_parameterNames _ _) fun _ =>
      still_pure _

theorem still_orNotCallable (t : Except Kind (Target φ)) : Still (orNotCallable t) :=
  still_lift _

/-- A target that was found was there to be found. -/
theorem of_orNotCallable {t : Except Kind (Target φ)} {target : Target φ} {s s' : RunState φ}
    (h : orNotCallable t s = (.ok target, s')) : s' = s ∧ t = .ok target := by
  cases t with
  | error kind => cases h
  | ok t =>
    cases h
    exact ⟨rfl, rfl⟩

theorem orNotCallable_of_eq {t : Except Kind (Target φ)} {found : Target φ} (h : t = .ok found)
    (s : RunState φ) : orNotCallable t s = (.ok found, s) := by
  rw [h]
  rfl

theorem still_operatorText (env : Env φ) (n : Node) : Still (operatorText env n) := by
  unfold operatorText
  split
  · exact still_fail _
  · exact env.still_text _

end Eval

-- ============================================================ settled steps

namespace Run

/-- A step that does not even look at the state: it comes to one thing, or
fails in one way. -/
def Settled (x : Run φ α) : Prop :=
  (∃ a, x = pure a) ∨ ∃ f, x = fail f

theorem settled_pure (a : α) : Settled (pure a : Run φ α) := .inl ⟨a, rfl⟩

theorem settled_fail (f : Failure) : Settled (fail f : Run φ α) := .inr ⟨f, rfl⟩

theorem settled_lift (x : Except Failure α) : Settled (lift x : Run φ α) := by
  cases x with
  | error e => exact .inr ⟨e, rfl⟩
  | ok a => exact .inl ⟨a, rfl⟩

theorem Settled.bind {x : Run φ α} {f : α → Run φ β} (hx : Settled x) (hf : ∀ a, Settled (f a)) :
    Settled (x >>= f) := by
  rcases hx with ⟨a, rfl⟩ | ⟨e, rfl⟩
  · exact hf a
  · exact .inr ⟨e, rfl⟩

theorem pure_injective {a b : α} (h : (pure a : Run φ α) = pure b) : a = b :=
  Except.ok.inj (congrArg (fun x : Run φ α => (x {}).1) h)

theorem fail_ne_pure {f : Failure} {a : α} : (fail f : Run φ α) ≠ pure a :=
  fun h => nomatch congrArg (fun x : Run φ α => (x {}).1) h

/-- Settled steps one after the other come to something only if each does. -/
theorem Settled.of_bind_eq_pure {x : Run φ α} {f : α → Run φ β} {b : β} (hx : Settled x)
    (h : x >>= f = pure b) : ∃ a, x = pure a ∧ f a = pure b := by
  rcases hx with ⟨a, rfl⟩ | ⟨e, rfl⟩
  · exact ⟨a, rfl, h⟩
  · exact absurd h fail_ne_pure

/-- What a settled step comes to once it always comes to. -/
theorem Settled.eq_pure {x : Run φ α} (hx : Settled x) {s : RunState φ} {a : α}
    (h : (x s).1 = .ok a) : x = pure a := by
  rcases hx with ⟨b, rfl⟩ | ⟨e, rfl⟩
  · cases h
    rfl
  · cases h

end Run

theorem Env.settled_text (env : Env φ) (n : Node) : Settled (env.text n) := by
  unfold Env.text
  split
  · exact settled_pure _
  · exact settled_fail _

theorem settled_expectKind (kind : NodeKind) (n : Option Node) :
    Settled (expectKind kind n : Run φ Node) := by
  cases n with
  | none => exact settled_fail _
  | some n =>
    by_cases h : n.kind = kind
    · rw [expectKind_of_eq h]
      exact settled_pure n
    · rw [expectKind_of_ne h]
      exact settled_fail _

/-- A check of a node's kind that succeeded. -/
theorem of_expectKind {kind : NodeKind} {o : Option Node} {m : Node}
    (h : (expectKind kind o : Run φ Node) = pure m) : o = some m ∧ m.kind = kind := by
  cases o with
  | none => exact absurd h fail_ne_pure
  | some n =>
    by_cases hk : n.kind = kind
    · rw [expectKind_of_eq hk] at h
      cases pure_injective h
      exact ⟨rfl, hk⟩
    · rw [expectKind_of_ne hk] at h
      exact absurd h fail_ne_pure

namespace Eval

theorem settled_piece (env : Env φ) (n : Node) : Settled (piece env n) := by
  unfold piece
  split
  · exact (env.settled_text n).bind fun _ => settled_pure _
  · exact (env.settled_text n).bind fun _ => settled_pure _
  · exact settled_fail _

theorem settled_pieces (env : Env φ) (ns : List Node) : Settled (pieces env ns) := by
  induction ns with
  | nil => exact settled_pure []
  | cons n rest ih => exact (settled_piece env n).bind fun _ => ih.bind fun _ => settled_pure _

theorem settled_stringText (env : Env φ) (n : Node) : Settled (stringText env n) :=
  (settled_expectKind _ _).bind fun _ => (settled_pieces _ _).bind fun _ => settled_pure _

theorem settled_parameterNames (env : Env φ) (ns : List Node) :
    Settled (parameterNames env ns) := by
  induction ns with
  | nil => exact settled_pure []
  | cons n rest ih =>
    exact (settled_expectKind _ _).bind fun n => (env.settled_text n).bind fun _ =>
      ih.bind fun _ => settled_pure _

theorem settled_number (text : String) : Settled (number text : Run φ (Value φ)) := by
  unfold number
  split
  · exact settled_fail _
  · exact settled_fail _
  · exact settled_pure _

theorem settled_literal (env : Env φ) (n : Node) : Settled (literal env n) := by
  unfold literal
  split
  · exact settled_fail _
  · split
    · exact (env.settled_text _).bind fun _ => settled_number _
    · exact (settled_stringText _ _).bind fun _ => settled_pure _
    · exact settled_fail _

theorem settled_lambda (env : Env φ) (n : Node) : Settled (lambda env n) := by
  unfold lambda
  split
  · exact settled_fail _
  · exact (settled_expectKind _ _).bind fun _ => (settled_parameterNames _ _).bind fun _ =>
      settled_pure _

theorem settled_applyOperator [DecidableEq φ] (text : String) (a b : Value φ) :
    Settled (applyOperator text a b) := by
  unfold applyOperator
  split
  · exact settled_fail _
  · split
    · exact settled_pure _
    · exact settled_fail _
    · exact settled_fail _

theorem settled_operatorText (env : Env φ) (n : Node) : Settled (operatorText env n) := by
  unfold operatorText
  split
  · exact settled_fail _
  · exact env.settled_text _

end Eval

end SamScript
