/-
The laws of the scope stack. After any steps, beginning with one frame, a session
keeps the laws that its account tells of (`Laws`). Steps are all there is: whatever a
caller does, with scopes and calls inside each other and exceptions that leave several
of them at once, comes down to steps, and leaves open what was open before
(`Client.exec_reaches`). So a scope can only cut back to the frames there were on entry.
-/
import SamScript.Proofs.Scope.Account

namespace SamScript.Session

-- =================================================================== laws

/-- Whether a frame is another one but for the value of one name bound in it. -/
structure Rebound (name : String) (value : Value) (old new : Frame) : Prop where
  bound : (old.get? name).isSome
  names_eq : new.names = old.names
  self : new.get? name = some value
  others : ∀ other, other ≠ name → new.get? other = old.get? other

theorem rebound_insert {name : String} {value v : Value} {frame : Frame}
    (h : frame.get? name = some v) : Rebound name value frame (frame.insert name value) where
  bound := by rw [h]; rfl
  names_eq := Bindings.names_insert_of_mem value (Bindings.mem_names_of_get? (by rw [h]; rfl))
  self := Bindings.get?_insert_self name value frame
  others := fun _ hne => Bindings.get?_insert_of_ne hne.symm value frame

/-- What holds of a session with this account. -/
structure Laws (a : Account) (s : Session) : Prop where
  /-- The frames are those that the account has live, the first there was below all others,
  and hold just what was written to them. -/
  global : a.live.getLast? = some 0
  length : s.scopes.frames.length = a.live.length
  holds : Holds a.writes a.live s.scopes.stack
  /-- The innermost frame is taken off, unless it is alone. -/
  single : s.scopes.frames.length = 1 → s.step .pop = (.nothingToPop, s)
  popped : s.scopes.frames.length ≠ 1 → ∃ frame scopes,
    s.step .pop = (.popped frame, { s with scopes }) ∧ s.scopes.frames = scopes.frames ++ [frame]
  /-- The active calls are those that are open, and one more is let in below its limit. -/
  calls : s.calls.reverse = a.calls
  admitted : ∀ name limit, (s.step (.enterCall name limit)).1 = .done ↔
    (a.calls.length : Int) < limit
  refused : ∀ name limit, ¬ (a.calls.length : Int) < limit →
    s.step (.enterCall name limit) = (.refused limit, s)
  /-- A scope leaves of the frames those there were on entry, or fewer. -/
  left : ∀ entry opened, a.opened = .scope entry :: opened →
    s.leave.scopes.frames = s.scopes.frames.take entry ∧
      s.leave.scopes.frames.length = min s.scopes.frames.length entry
  /-- A name has the value last written to it in the innermost frame that binds it. -/
  resolved : ∀ name, s.scopes.resolve? name = (a.binder? name).bind (a.last? · name)
  /-- A name that has no value is not assigned, one that has is where it has it. -/
  unassigned : ∀ name value, s.step (.assign name value) = (.assigned false, s) ↔
    s.scopes.resolve? name = none
  assigned : ∀ name value, (s.scopes.resolve? name).isSome → ∃ scopes outer old new inner,
    s.step (.assign name value) = (.assigned true, { s with scopes }) ∧
      s.scopes.frames = outer ++ old :: inner ∧ scopes.frames = outer ++ new :: inner ∧
      Rebound name value old new ∧ ∀ frame ∈ inner, frame.get? name = none

section

variable (s : Session)

theorem length_frames : s.scopes.frames.length = s.scopes.height := by
  rw [Scopes.frames_eq, List.length_reverse, Scopes.length_stack]

theorem exists_popped (h : s.scopes.frames.length ≠ 1) : ∃ frame scopes,
    s.step .pop = (.popped frame, { s with scopes }) ∧
      s.scopes.frames = scopes.frames ++ [frame] := by
  rw [length_frames] at h
  obtain ⟨⟨frame, scopes⟩, hpop⟩ :=
    Option.ne_none_iff_exists'.1 (mt (Scopes.pop?_eq_none_iff _).1 h)
  refine ⟨frame, scopes, by rw [step, hpop], ?_⟩
  rw [Scopes.frames_eq, Scopes.frames_eq, Scopes.stack_of_pop? hpop, List.reverse_cons]

/-- What assigning does, by whether the name has a value. -/
theorem assign_cases (name : String) (value : Value) :
    (s.scopes.resolve? name = none ∧ s.step (.assign name value) = (.assigned false, s)) ∨
      (s.scopes.resolve? name).isSome ∧ ∃ scopes outer old new inner,
        s.step (.assign name value) = (.assigned true, { s with scopes }) ∧
          s.scopes.frames = outer ++ old :: inner ∧ scopes.frames = outer ++ new :: inner ∧
          Rebound name value old new ∧ ∀ frame ∈ inner, frame.get? name = none := by
  have hassign := Scopes.stack_assign? s.scopes name value
  rw [Scopes.resolve?_eq]
  rcases Scopes.exists_binder name s.scopes.stack with
    hnone | ⟨inner, held, outer, v, hstack, hinner, hv⟩
  · rw [Scopes.overwrite?_eq_none hnone, Option.map_eq_none_iff] at hassign
    exact .inl ⟨Scopes.lookup?_eq_none hnone, by rw [step, hassign]⟩
  · rw [hstack, Scopes.overwrite?_binder hinner hv, Option.map_eq_some_iff] at hassign
    obtain ⟨scopes, hscopes, hstack'⟩ := hassign
    refine .inr ⟨?_, scopes, outer.reverse, held, held.insert name value, inner.reverse, ?_, ?_,
      ?_, rebound_insert hv, fun frame hframe => hinner frame (List.mem_reverse.1 hframe)⟩
    · rw [hstack, Scopes.lookup?_binder hinner hv]
      rfl
    · rw [step, hscopes]
    · rw [Scopes.frames_eq, hstack]
      simp
    · rw [Scopes.frames_eq, hstack']
      simp

end

theorem Account.Describes.laws {a : Account} {s : Session} (h : a.Describes s) : Laws a s where
  global := h.global
  length := by rw [length_frames, h.height_eq]
  holds := h.holds
  single := by
    intro hone
    rw [length_frames] at hone
    rw [Session.step, (Scopes.pop?_eq_none_iff _).2 hone]
  popped := exists_popped s
  calls := by rw [h.calls, Account.calls]
  admitted := by
    intro name limit
    rw [Session.step, h.length_calls]
    by_cases hlimit : limit ≤ (a.calls.length : Int)
    · rw [if_pos hlimit]
      exact ⟨fun he => (by cases he), fun hlt => absurd hlimit (Int.not_le.2 hlt)⟩
    · rw [if_neg hlimit]
      exact ⟨fun _ => Int.not_le.1 hlimit, fun _ => rfl⟩
  refused := by
    intro name limit hlimit
    rw [Session.step, h.length_calls, if_pos (Int.not_lt.1 hlimit)]
  left := by
    intro entry opened hopened
    have hentry := h.entered entry (hopened ▸ List.mem_cons_self)
    have hframes : s.leave.scopes.frames = s.scopes.frames.take entry := by
      rw [Session.leave, h.guards, hopened]
      exact Scopes.frames_cutTo _ hentry
    refine ⟨hframes, ?_⟩
    rw [hframes, List.length_take, Nat.min_comm]
  resolved := by
    intro name
    rw [Scopes.resolve?_eq]
    exact h.holds.lookup? name
  unassigned := by
    intro name value
    rcases assign_cases s name value with ⟨hnone, hstep⟩ | ⟨hsome, scopes, _, _, _, _, hstep, -⟩
    · exact ⟨fun _ => hnone, fun _ => hstep⟩
    · rw [hstep]
      refine ⟨fun he => (by cases he), fun hnone => ?_⟩
      rw [hnone] at hsome
      cases hsome
  assigned := by
    intro name value hsome
    rcases assign_cases s name value with ⟨hnone, -⟩ | ⟨-, hassigned⟩
    · rw [hnone] at hsome
      cases hsome
    · exact hassigned

-- ================================================================ clients

/-- What a caller of the scope stack may do, where what it does next may depend on all it
sees. Scopes and calls are inside each other, and are left by an exception as well. -/
inductive Client where
  | done
  | raise
  | push (bindings : Frame)
  | pop
  | declare (name : String) (value : Value)
  | assign (name : String) (value : Value)
  | andThen (first : Client) (next : Session → Client)
  /-- An exception out of the body goes no further. -/
  | recover (body : Client) (handler : Session → Client)
  | inScope (bindings : Frame) (body : Client)
  | inCall (name : String) (limit : Int) (body : Client)

namespace Client

/-- Whether a caller ends in an exception, and the session it leaves. To pop the only
frame is an exception, and so is a call that is refused. -/
def exec : Client → Session → Bool × Session
  | .done, s => (false, s)
  | .raise, s => (true, s)
  | .push bindings, s => (false, (s.step (.push bindings)).2)
  | .pop, s => (s.scopes.frames.length = 1, (s.step .pop).2)
  | .declare name value, s => (false, (s.step (.declare name value)).2)
  | .assign name value, s => (false, (s.step (.assign name value)).2)
  | .andThen first next, s =>
    match first.exec s with
    | (true, t) => (true, t)
    | (false, t) => (next t).exec t
  | .recover body handler, s =>
    match body.exec s with
    | (true, t) => (handler t).exec t
    | (false, t) => (false, t)
  | .inScope bindings body, s =>
    let r := body.exec (s.step (.enterScope bindings)).2
    (r.1, r.2.leave)
  | .inCall name limit body, s =>
    match s.step (.enterCall name limit) with
    | (.refused _, t) => (true, t)
    | (_, t) =>
      let r := body.exec t
      (r.1, r.2.leave)

/-- Whether a session comes of another one by steps that leave all that they open, and
nothing else. -/
def Reaches (s t : Session) : Prop :=
  (∃ steps, t = s.run steps) ∧ t.guards = s.guards ∧ t.calls = s.calls

variable {s t u : Session}

theorem Reaches.refl (s : Session) : Reaches s s :=
  ⟨⟨[], rfl⟩, rfl, rfl⟩

theorem Reaches.trans (h : Reaches s t) (h' : Reaches t u) : Reaches s u := by
  obtain ⟨⟨steps, rfl⟩, hguards, hcalls⟩ := h
  obtain ⟨⟨steps', rfl⟩, hguards', hcalls'⟩ := h'
  exact ⟨⟨steps ++ steps', (List.foldl_append).symm⟩, hguards'.trans hguards,
    hcalls'.trans hcalls⟩

/-- A step that opens nothing and closes nothing. -/
theorem reaches_step (step : Step) (hguards : (s.step step).2.guards = s.guards)
    (hcalls : (s.step step).2.calls = s.calls) : Reaches s (s.step step).2 :=
  ⟨⟨[step], rfl⟩, hguards, hcalls⟩

/-- What is opened, used and left. -/
theorem reaches_around (enter : Step) (guards : (s.step enter).2.leave.guards = s.guards)
    (calls : (s.step enter).2.leave.calls = s.calls) (h : Reaches (s.step enter).2 t) :
    Reaches s t.leave := by
  obtain ⟨⟨steps, ht⟩, hguards, hcalls⟩ := h
  refine ⟨⟨enter :: (steps ++ [.leave]), ?_⟩, ?_, ?_⟩
  · rw [ht, run, run, List.foldl_cons, List.foldl_append]
    rfl
  · rw [← guards]
    unfold Session.leave
    rw [hguards]
    cases (s.step enter).2.guards with
    | nil => exact hguards
    | cons guard rest => cases guard <;> rfl
  · rw [← calls]
    unfold Session.leave
    rw [hguards]
    cases (s.step enter).2.guards with
    | nil => exact hcalls
    | cons guard rest =>
      cases guard with
      | scope height => exact hcalls
      | call => exact congrArg List.tail hcalls

/-- Whatever a caller does comes down to steps, and all that it opens it leaves. -/
theorem exec_reaches (c : Client) (s : Session) : Reaches s (c.exec s).2 := by
  induction c generalizing s with
  | done => exact .refl s
  | raise => exact .refl s
  | push bindings => exact reaches_step _ rfl rfl
  | pop =>
    have hpop : (s.step .pop).2.guards = s.guards ∧ (s.step .pop).2.calls = s.calls := by
      rw [Session.step]
      cases s.scopes.pop? <;> exact ⟨rfl, rfl⟩
    exact reaches_step _ hpop.1 hpop.2
  | declare name value => exact reaches_step _ rfl rfl
  | assign name value =>
    have hassign : (s.step (.assign name value)).2.guards = s.guards ∧
        (s.step (.assign name value)).2.calls = s.calls := by
      rw [Session.step]
      cases s.scopes.assign? name value <;> exact ⟨rfl, rfl⟩
    exact reaches_step _ hassign.1 hassign.2
  | andThen first next ihf ihn =>
    have hfirst := ihf s
    rw [exec]
    rcases hexec : first.exec s with ⟨_ | _, t⟩
    · rw [hexec] at hfirst
      exact hfirst.trans (ihn t t)
    · rw [hexec] at hfirst
      exact hfirst
  | recover body handler ihb ihh =>
    have hbody := ihb s
    rw [exec]
    rcases hexec : body.exec s with ⟨_ | _, t⟩
    · rw [hexec] at hbody
      exact hbody
    · rw [hexec] at hbody
      exact hbody.trans (ihh t t)
  | inScope bindings body ih => exact reaches_around _ rfl rfl (ih _)
  | inCall name limit body ih =>
    rw [exec]
    by_cases hlimit : limit ≤ (s.calls.length : Int)
    · rw [Session.step, if_pos hlimit]
      exact .refl s
    · have hstep : s.step (.enterCall name limit) =
          (.done, { s with calls := name :: s.calls, guards := .call :: s.guards }) := by
        rw [Session.step, if_neg hlimit]
      have hbody := ih (s.step (.enterCall name limit)).2
      have hleft := reaches_around (.enterCall name limit) (by rw [hstep]; rfl)
        (by rw [hstep]; rfl) hbody
      rw [hstep] at hleft ⊢
      exact hleft

/-- A scope that is left, by an exception or not, leaves of the frames behind its body
those there were before it. -/
theorem frames_inScope (bindings : Frame) (body : Client) (s : Session) :
    ((inScope bindings body).exec s).2.scopes.frames =
      (body.exec (s.step (.enterScope bindings)).2).2.scopes.frames.take
        s.scopes.frames.length := by
  obtain ⟨-, hguards, -⟩ := body.exec_reaches (s.step (.enterScope bindings)).2
  rw [exec, length_frames]
  show Scopes.frames (Session.leave _).scopes = _
  rw [Session.leave, hguards]
  exact Scopes.frames_cutTo _ (Nat.succ_pos _)

end Client

/-- The laws of the scope stack. After any steps a session that began with one frame
keeps them with the account of these steps. What a caller does with it, with scopes and
calls that are left by exceptions or not, are such steps, and leave open what was open.
A scope leaves as many frames as there were on entry, or fewer if its body took some of
them off. -/
theorem scope_stack_keeps_its_laws :
    (∀ steps : List Step, Laws (Account.run {} steps) (run {} steps)) ∧
      (∀ (client : Client) (s : Session), Client.Reaches s (client.exec s).2) ∧
      ∀ (bindings : Frame) (body : Client) (s : Session),
        let inside := (body.exec (s.step (.enterScope bindings)).2).2.scopes.frames
        let after := ((Client.inScope bindings body).exec s).2.scopes.frames
        after = inside.take s.scopes.frames.length ∧
          after.length = min inside.length s.scopes.frames.length ∧
          (s.scopes.frames.length ≤ inside.length → after.length = s.scopes.frames.length) := by
  refine ⟨fun steps => (Account.Describes.initial.run steps).laws, Client.exec_reaches,
    fun bindings body s => ?_⟩
  have hframes := Client.frames_inScope bindings body s
  have hlength := congrArg List.length hframes
  rw [List.length_take, Nat.min_comm] at hlength
  exact ⟨hframes, hlength, fun hle => hlength.trans (Nat.min_eq_right hle)⟩

end SamScript.Session
