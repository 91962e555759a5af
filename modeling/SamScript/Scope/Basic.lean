/-
The scope stack. The global frame is always there; blocks and calls put
frames on top of it and take them off again. A name is looked up from the
innermost frame outwards, so whatever frame is live is visible.
-/
import SamScript.Value.Basic

namespace SamScript

/-- The variables of one scope, in the order in which they were declared. -/
abbrev Frame (φ : Type := FunctionRef) := Bindings (Value φ)

/-- The live frames: those of blocks and calls, the innermost first, and the
global one below them. -/
structure Scopes (φ : Type := FunctionRef) where
  inner : List (Frame φ) := []
  globals : Frame φ := []

namespace Scopes

variable {φ : Type}

/-- How many frames are live. -/
def height (s : Scopes φ) : Nat :=
  s.inner.length + 1

/-- All frames, the global one first. -/
def frames (s : Scopes φ) : List (Frame φ) :=
  s.globals :: s.inner.reverse

/-- The innermost frame. -/
def current (s : Scopes φ) : Frame φ :=
  s.inner.head?.getD s.globals

-- ============================================================ the stack

/-- Puts a frame on top. -/
def push (s : Scopes φ) (frame : Frame φ) : Scopes φ :=
  { s with inner := frame :: s.inner }

/-- Takes the innermost frame off; the global frame stays. -/
def pop? (s : Scopes φ) : Option (Frame φ × Scopes φ) :=
  match s.inner with
  | [] => none
  | frame :: rest => some (frame, { s with inner := rest })

/-- Takes frames off until no more than `height` are left. -/
def cutTo (s : Scopes φ) (height : Nat) : Scopes φ :=
  { s with inner := s.inner.drop (s.height - height) }

@[simp] theorem height_push (s : Scopes φ) (frame : Frame φ) :
    (s.push frame).height = s.height + 1 := rfl

theorem height_cutTo (s : Scopes φ) {height : Nat} (h : 0 < height) :
    (s.cutTo height).height = min s.height height := by
  simp only [cutTo, Scopes.height, List.length_drop]
  omega

theorem cutTo_height (s : Scopes φ) : s.cutTo s.height = s := by
  simp [cutTo]

/-- Taking off exactly what was put on top gives the stack back. -/
theorem cutTo_push (s : Scopes φ) (frame : Frame φ) :
    (s.push frame).cutTo s.height = s := by
  simp only [cutTo, height_push, Nat.add_sub_cancel_left]
  rfl

-- ================================================================ names

/-- The value of a name in the innermost of some frames that binds it. -/
def lookup? (name : String) : List (Frame φ) → Option (Value φ)
  | [] => none
  | frame :: rest =>
    match frame.get? name with
    | some v => some v
    | none => lookup? name rest

/-- The value of a name. -/
def resolve? (s : Scopes φ) (name : String) : Option (Value φ) :=
  match lookup? name s.inner with
  | some v => some v
  | none => s.globals.get? name

/-- The place of the innermost frame that binds a name, counted from the
global one. -/
def frameOf? (s : Scopes φ) (name : String) : Option Nat :=
  match s.inner.findIdx? fun frame => (frame.get? name).isSome with
  | some i => some (s.inner.length - i)
  | none => if (s.globals.get? name).isSome then some 0 else none

/-- Binds a name in the innermost frame. -/
def declare (s : Scopes φ) (name : String) (value : Value φ) : Scopes φ :=
  match s.inner with
  | [] => { s with globals := s.globals.insert name value }
  | frame :: rest => { s with inner := frame.insert name value :: rest }

/-- Overwrites a name in the innermost of some frames that binds it. -/
def overwrite? (name : String) (value : Value φ) :
    List (Frame φ) → Option (List (Frame φ))
  | [] => none
  | frame :: rest =>
    if (frame.get? name).isSome then some (frame.insert name value :: rest)
    else (overwrite? name value rest).map (frame :: ·)

/-- Overwrites a name in the innermost frame that binds it, if any does. -/
def assign? (s : Scopes φ) (name : String) (value : Value φ) : Option (Scopes φ) :=
  match overwrite? name value s.inner with
  | some inner => some { s with inner }
  | none =>
    if (s.globals.get? name).isSome then
      some { s with globals := s.globals.insert name value }
    else none

/-- Binds a name in the global frame. -/
def declareGlobal (s : Scopes φ) (name : String) (value : Value φ) : Scopes φ :=
  { s with globals := s.globals.insert name value }

end Scopes

end SamScript
