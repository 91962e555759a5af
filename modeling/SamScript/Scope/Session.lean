/-
Working the scope stack step by step. Beside frames put on and taken off
freely, a session knows guarded stretches: a scope that is cut back to its
height on entry when it is left, and a call that is counted while it is
open. Guards close in the reverse order of their opening, whether what they
guard succeeded or failed.
-/
import SamScript.Scope.Basic

namespace SamScript

/-- A guarded stretch that is open. -/
inductive Guard where
  /-- A scope, with the number of frames that were live on entry. -/
  | scope (height : Nat)
  | call
  deriving DecidableEq, Repr

/-- A scope stack with the calls and guards that are open, the innermost
first. -/
structure Session where
  scopes : Scopes := {}
  calls : List String := []
  guards : List Guard := []

/-- The steps that change a session. -/
inductive Session.Step where
  | push (bindings : Frame)
  | pop
  | declare (name : String) (value : Value)
  | assign (name : String) (value : Value)
  | enterScope (bindings : Frame)
  | enterCall (name : String) (limit : Int)
  | leave

/-- What a step says about itself. -/
inductive Session.Outcome where
  | done
  | popped (frame : Frame)
  /-- The global frame stays. -/
  | nothingToPop
  | assigned (found : Bool)
  /-- As many calls are open as the limit allows. -/
  | refused (limit : Int)

namespace Session

/-- Closes the innermost guard. -/
def leave (s : Session) : Session :=
  match s.guards with
  | [] => s
  | .scope height :: guards => { s with scopes := s.scopes.cutTo height, guards }
  | .call :: guards => { s with calls := s.calls.tail, guards }

/-- Takes one step. -/
def step (s : Session) : Step → Outcome × Session
  | .push bindings => (.done, { s with scopes := s.scopes.push bindings })
  | .pop =>
    match s.scopes.pop? with
    | some (frame, scopes) => (.popped frame, { s with scopes })
    | none => (.nothingToPop, s)
  | .declare name value => (.done, { s with scopes := s.scopes.declare name value })
  | .assign name value =>
    match s.scopes.assign? name value with
    | some scopes => (.assigned true, { s with scopes })
    | none => (.assigned false, s)
  | .enterScope bindings =>
    (.done, { s with
      scopes := s.scopes.push bindings
      guards := .scope s.scopes.height :: s.guards })
  | .enterCall name limit =>
    if limit ≤ (s.calls.length : Int) then (.refused limit, s)
    else (.done, { s with calls := name :: s.calls, guards := .call :: s.guards })
  | .leave => (.done, s.leave)

/-- Takes steps one after the other. -/
def run (s : Session) (steps : List Step) : Session :=
  steps.foldl (fun s step => (s.step step).2) s

end Session

end SamScript
