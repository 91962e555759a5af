/-
What fails on its own. The steps that evaluate nothing, reading a text,
checking a kind, applying an operator, asking a program, raise failures that
know no place, and returns have no part in them (`Failure.Raw`). Evaluation is
those steps and evaluation of other nodes, so all other failures are handed
on.
-/
import SamScript.Eval.Program
import SamScript.Proofs.Eval.Still
import SamScript.Proofs.Json.Members

namespace SamScript

variable {φ α β : Type}

-- ================================================================ raising

/-- Whether a cause has nothing to do with returns, nor with how deep a run
nests. -/
def EvalFault.isPlain : EvalFault → Bool
  | .returnAsValue | .returnOutsideFunction | .stackExhausted => false
  | _ => true

theorem EvalFault.ne_of_isPlain {cause : EvalFault} (h : cause.isPlain = true) :
    cause ≠ .returnAsValue ∧ cause ≠ .returnOutsideFunction ∧ cause ≠ .stackExhausted := by
  refine ⟨?_, ?_, ?_⟩ <;>
    · rintro rfl
      cases h

/-- Whether a failure is one that a step raises which evaluates nothing: no
place is known for it yet, its cause is a plain one, and the bounds are to
blame only where there are some. -/
def Failure.Raw (bounds : Bounds) : Failure → Prop
  | .fault cause place => place = none ∧ cause.isPlain = true
  | .abort _ => True
  | .exhausted => bounds ≠ {}

theorem Failure.raw_fault {bounds : Bounds} {cause : EvalFault}
    (h : cause.isPlain = true) : (Failure.fault cause none).Raw bounds :=
  ⟨rfl, h⟩

/-- The first place that a fault is given is the one it keeps. -/
theorem Failure.locate_locate (e : Failure) (place other : Place) :
    (e.locate place).locate other = e.locate place := by
  cases e with
  | fault cause known => cases known <;> rfl
  | abort cause => rfl
  | exhausted => rfl

namespace Run

/-- From a state, whatever failure a step ends in is one of some. -/
def FailsAs (P : Failure → Prop) (x : Run φ α) (s : RunState φ) : Prop :=
  ∀ e, (x s).1 = .error e → P e

/-- A step whose failures are all raised in it. -/
def Raises (bounds : Bounds) (x : Run φ α) : Prop :=
  ∀ s, FailsAs (Failure.Raw bounds) x s

variable {P : Failure → Prop} {x : Run φ α} {f : α → Run φ β} {s : RunState φ} {bounds : Bounds}

theorem FailsAs.mono {Q : Failure → Prop} (hx : FailsAs P x s) (h : ∀ e, P e → Q e) :
    FailsAs Q x s :=
  fun e he => h e (hx e he)

theorem failsAs_pure {a : α} : FailsAs P (pure a) s :=
  fun _ he => nomatch he

theorem failsAs_fail {e : Failure} (h : P e) : FailsAs P (fail e : Run φ α) s :=
  fun _ he => Except.error.inj he ▸ h

theorem FailsAs.bind (hx : FailsAs P x s)
    (hf : ∀ a t, x s = (.ok a, t) → FailsAs P (f a) t) : FailsAs P (x >>= f) s := by
  intro e he
  rw [bind_apply] at he
  rcases hr : x s with ⟨e' | a, t⟩
  · rw [hr] at he
    cases he
    exact hx e (by rw [hr])
  · rw [hr] at he
    exact hf a t hr e he

theorem FailsAs.located {place : Place} (hx : FailsAs P x s) :
    FailsAs (fun e => ∃ e', P e' ∧ e = e'.locate place) (located place x) s := by
  intro e he
  unfold Run.located at he
  rcases hr : x s with ⟨e' | a, t⟩
  · rw [hr] at he
    exact ⟨e', hx e' (hr ▸ rfl), (Except.error.inj he).symm⟩
  · rw [hr] at he
    cases he

theorem raises_pure (a : α) : Raises bounds (pure a : Run φ α) := fun _ => failsAs_pure

theorem raises_fault {cause : EvalFault} (h : (Failure.fault cause none).Raw bounds) :
    Raises bounds (fault cause : Run φ α) :=
  fun _ => failsAs_fail h

theorem raises_abort (cause : Abort) : Raises bounds (fail (.abort cause) : Run φ α) :=
  fun _ => failsAs_fail trivial

theorem raises_lift {r : Except Failure α} (h : ∀ e, r = .error e → e.Raw bounds) :
    Raises bounds (lift r : Run φ α) :=
  fun _ => h

theorem raises_scopes : Raises bounds (scopes : Run φ (Scopes φ)) :=
  fun _ _ he => nomatch he

theorem raises_modifyScopes (g : Scopes φ → Scopes φ) : Raises bounds (modifyScopes g) :=
  fun _ _ he => nomatch he

theorem Raises.bind (hx : Raises bounds x) (hf : ∀ a, Raises bounds (f a)) :
    Raises bounds (x >>= f) :=
  fun s => (hx s).bind fun a t _ => hf a t

theorem raises_within {bound : Option Nat} (h : bound ≠ none → bounds ≠ {})
    (measure : RunState φ → Nat) : Raises bounds (within bound measure) := by
  intro s e he
  unfold within at he
  split at he
  · cases he
  · split at he
    · cases he
      exact h (Option.some_ne_none _)
    · cases he

end Run

open Run

-- ================================================================= leaves

theorem Env.raises_text (env : Env φ) (n : Node) {bounds : Bounds} :
    Raises bounds (env.text n) := by
  unfold Env.text
  split
  · exact raises_pure _
  · exact raises_abort _

theorem raises_misshapen (expected : String) (found : NodeKind) {bounds : Bounds} :
    Raises bounds (misshapen expected found : Run φ α) :=
  raises_fault (Failure.raw_fault rfl)

theorem raises_expectKind (kind : NodeKind) (n : Option Node) {bounds : Bounds} :
    Raises bounds (expectKind kind n : Run φ Node) := by
  cases n with
  | none => exact raises_fault (Failure.raw_fault rfl)
  | some n =>
    by_cases h : n.kind = kind
    · rw [expectKind_of_eq h]
      exact raises_pure _
    · rw [expectKind_of_ne h]
      exact raises_misshapen _ _

namespace Eval

variable {bounds : Bounds}

theorem raises_piece (env : Env φ) (n : Node) : Raises bounds (piece env n) := by
  unfold piece
  split
  · exact (env.raises_text _).bind fun _ => raises_pure _
  · exact (env.raises_text _).bind fun _ => raises_pure _
  · exact raises_misshapen _ _

theorem raises_pieces (env : Env φ) (ns : List Node) : Raises bounds (pieces env ns) := by
  induction ns with
  | nil => exact raises_pure _
  | cons n rest ih => exact (raises_piece _ _).bind fun _ => ih.bind fun _ => raises_pure _

theorem raises_stringText (env : Env φ) (n : Node) : Raises bounds (stringText env n) :=
  (raises_expectKind _ _).bind fun _ => (raises_pieces _ _).bind fun _ => raises_pure _

theorem raises_number (text : String) : Raises bounds (number text : Run φ (Value φ)) := by
  unfold number
  split
  · exact raises_abort _
  · exact raises_fault (Failure.raw_fault rfl)
  · exact raises_pure _

theorem raises_literal (env : Env φ) (n : Node) : Raises bounds (literal env n) := by
  unfold literal
  split
  · exact raises_fault (Failure.raw_fault rfl)
  · split
    · exact (env.raises_text _).bind fun _ => raises_number _
    · exact (raises_stringText _ _).bind fun _ => raises_pure _
    · exact raises_misshapen _ _

theorem raises_variableValue (env : Env φ) (n : Node) : Raises bounds (variableValue env n) := by
  refine (env.raises_text _).bind fun _ => raises_scopes.bind fun _ => ?_
  split
  · exact raises_pure _
  · exact raises_fault (Failure.raw_fault rfl)

theorem raises_attributeOf (v : Value φ) (name : String) :
    Raises bounds (orFault (attributeOf v name)) := by
  refine raises_lift fun e he => ?_
  unfold attributeOf at he
  split at he
  · split at he
    · cases he
    · cases he
      exact Failure.raw_fault rfl
  · cases he
    exact Failure.raw_fault rfl

theorem raises_applyOperator [DecidableEq φ] (text : String) (a b : Value φ) :
    Raises bounds (applyOperator text a b) := by
  unfold applyOperator
  split
  · exact raises_fault (Failure.raw_fault rfl)
  · split
    · exact raises_pure _
    · exact raises_fault (Failure.raw_fault rfl)
    · exact raises_abort _

theorem raises_parameterNames (env : Env φ) (ns : List Node) :
    Raises bounds (parameterNames env ns) := by
  induction ns with
  | nil => exact raises_pure _
  | cons n rest ih =>
    exact (raises_expectKind _ _).bind fun _ => (env.raises_text _).bind fun _ =>
      ih.bind fun _ => raises_pure _

theorem raises_lambda (env : Env φ) (n : Node) : Raises bounds (lambda env n) := by
  unfold lambda
  split
  · exact raises_misshapen _ _
  · exact (raises_expectKind _ _).bind fun _ => (raises_parameterNames _ _).bind fun _ =>
      raises_pure _

theorem raises_orNotCallable (t : Except Kind (Target φ)) : Raises bounds (orNotCallable t) := by
  refine raises_lift fun e he => ?_
  cases t with
  | ok target => cases he
  | error kind =>
    cases he
    exact Failure.raw_fault rfl

theorem raises_operatorText (env : Env φ) (n : Node) : Raises bounds (operatorText env n) := by
  unfold operatorText
  split
  · exact raises_abort _
  · exact env.raises_text _

end Eval

-- ================================================================ outside

namespace Foreign

variable {bounds : Bounds}

theorem entry_raw {host : Host} {config : Config} {path name : String} {e : Failure}
    (h : entry bounds host config path name = .error e) : e.Raw bounds := by
  unfold entry at h
  dsimp only at h
  repeat' split at h
  all_goals cases h
  all_goals first | exact trivial | exact Failure.raw_fault rfl

theorem outputText_raw {config : Config} {bytes : List UInt8} {e : Failure}
    (h : outputText config bytes = .error e) : e.Raw bounds := by
  unfold outputText at h
  split at h
  · cases h
  · cases h
    trivial

/-- Only under a bound does the answer of a program nest too deep. -/
theorem outputValue_raw {command text : String} {e : Failure}
    (h : (outputValue bounds command text : Except Failure (Value φ)) = .error e) :
    e.Raw bounds := by
  unfold outputValue at h
  split at h
  · rename_i hdeep
    cases h
    rintro rfl
    exact Json.readWithin_none _ hdeep
  · cases h
    exact Failure.raw_fault rfl
  · split at h
    · cases h
    · cases h
      trivial

theorem answer_raw [Callable φ] {config : Config} {l : Launch φ}
    {result : Except StartFault Finished} {e : Failure}
    (h : answer bounds config l result = .error e) : e.Raw bounds := by
  cases result with
  | error fault =>
    cases h
    exact Failure.raw_fault rfl
  | ok finished =>
    cases l with
    | template text arguments =>
      change (outputText config finished.stdout >>= fun text => _) = _ at h
      rcases ho : outputText config finished.stdout with e' | out
      · rw [ho] at h
        cases h
        exact outputText_raw ho
      · rw [ho] at h
        exact outputValue_raw h
    | program name arguments =>
      change (outputText config finished.stdout >>= fun stdout =>
        outputText config finished.stderr >>= fun stderr => _) = _ at h
      rcases ho : outputText config finished.stdout with e' | out
      · rw [ho] at h
        cases h
        exact outputText_raw ho
      · rw [ho] at h
        rcases he : outputText config finished.stderr with e' | err
        · change (outputText config finished.stderr >>= fun stderr => _) = _ at h
          rw [he] at h
          cases h
          exact outputText_raw he
        · change (outputText config finished.stderr >>= fun stderr => _) = _ at h
          rw [he] at h
          cases h

end Foreign

theorem raises_launch [Callable φ] (env : Env φ) (l : Foreign.Launch φ) :
    Raises env.bounds (launch env l) :=
  fun _ _ he => Foreign.answer_raw he

end SamScript
