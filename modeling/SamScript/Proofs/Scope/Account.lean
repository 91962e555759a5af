/-
An account of a session. It knows nothing of frames and what they hold: a frame is a
number, how many there were before it, and all it keeps is which frames are live, what
was ever written to which name of which frame, and which stretches are open
(`Account`). A session agrees with its account after any steps (`Account.Describes.run`): a name
has the value last written to it in the innermost live frame that binds it, and what
is open is what was opened and not left. The invariant is that frames are numbered
upwards, so that a new frame has nothing written to it.
-/
import SamScript.Scope.Session
import SamScript.Proofs.Scope.Frames
import Mathlib.Data.List.Forall2

namespace SamScript.Session

-- =============================================================== accounts

/-- A value given to a name in a frame. -/
structure Write where
  frame : Nat
  name : String
  value : Value

/-- What was opened: a scope, with the number of frames that were live before, or a call. -/
inductive Opened where
  | scope (entry : Nat)
  | call (name : String)

namespace Opened

def guard : Opened → Guard
  | .scope entry => .scope entry
  | .call _ => .call

def call? : Opened → Option String
  | .scope _ => none
  | .call name => some name

end Opened

/-- The value last written to a name of a frame, in some writes of which the latest comes
first. -/
def lastWrite? (writes : List Write) (frame : Nat) (name : String) : Option Value :=
  (writes.find? fun w => w.frame = frame ∧ w.name = name).map Write.value

/-- An account of a session. -/
structure Account where
  /-- How many frames there have been. -/
  born : Nat := 1
  /-- The frames that are live, the innermost first. -/
  live : List Nat := [0]
  /-- All that was written, the latest first. -/
  writes : List Write := []
  /-- What is open, the innermost first. -/
  opened : List Opened := []

namespace Account

/-- The value last written to a name of a frame. -/
def last? (a : Account) (frame : Nat) (name : String) : Option Value :=
  lastWrite? a.writes frame name

/-- The innermost live frame that binds a name. -/
def binder? (a : Account) (name : String) : Option Nat :=
  a.live.find? fun frame => (a.last? frame name).isSome

/-- The names of the calls that are open, the outermost first. -/
def calls (a : Account) : List String :=
  (a.opened.filterMap Opened.call?).reverse

/-- A value is given to a name in a frame. -/
def write (a : Account) (frame : Nat) (name : String) (value : Value) : Account :=
  { a with writes := ⟨frame, name, value⟩ :: a.writes }

/-- A frame is put on, with the values it begins with. -/
def begin (a : Account) (bindings : Frame) : Account :=
  { a with
    born := a.born + 1
    live := a.born :: a.live
    writes := bindings.map (fun (name, value) => ⟨a.born, name, value⟩) ++ a.writes }

/-- The innermost stretch is left. -/
def leave (a : Account) : Account :=
  match a.opened with
  | [] => a
  | .scope entry :: opened => { a with live := a.live.drop (a.live.length - entry), opened }
  | .call _ :: opened => { a with opened }

/-- What a step changes. -/
def step (a : Account) : Step → Account
  | .push bindings => a.begin bindings
  | .pop => if a.live.length = 1 then a else { a with live := a.live.tail }
  | .declare name value => a.write (a.live.head?.getD 0) name value
  | .assign name value =>
    match a.binder? name with
    | some frame => a.write frame name value
    | none => a
  | .enterScope bindings =>
    { a.begin bindings with opened := .scope a.live.length :: a.opened }
  | .enterCall name limit =>
    if limit ≤ (a.calls.length : Int) then a else { a with opened := .call name :: a.opened }
  | .leave => a.leave

/-- What steps one after the other change. -/
def run (a : Account) (steps : List Step) : Account :=
  steps.foldl step a

end Account

-- ================================================================= writes

variable {writes : List Write} {frame other : Nat} {name : String} {value : Value}

theorem lastWrite?_self :
    lastWrite? (⟨frame, name, value⟩ :: writes) frame name = some value := by
  simp [lastWrite?]

theorem lastWrite?_of_ne {name' : String} (h : frame ≠ other ∨ name ≠ name') :
    lastWrite? (⟨frame, name, value⟩ :: writes) other name' = lastWrite? writes other name' := by
  have hno : ¬ (frame = other ∧ name = name') := fun ⟨hf, hn⟩ => h.elim (· hf) (· hn)
  simp [lastWrite?, hno]

/-- To a frame nothing was written to so far, what it begins with is what was written. -/
theorem lastWrite?_begin (hnew : ∀ w ∈ writes, w.frame ≠ frame) (bindings : Frame)
    (name : String) :
    lastWrite? (bindings.map (fun (name, value) => ⟨frame, name, value⟩) ++ writes) frame name =
      bindings.get? name := by
  induction bindings with
  | nil =>
    have hnone : writes.find? (fun w => w.frame = frame ∧ w.name = name) = none :=
      List.find?_eq_none.2 fun w hw => by simp [hnew w hw]
    rw [List.map_nil, List.nil_append, lastWrite?, hnone]
    rfl
  | cons b rest ih =>
    obtain ⟨key, value⟩ := b
    rw [List.map_cons, List.cons_append, Bindings.get?]
    by_cases hkey : key = name
    · rw [if_pos hkey, hkey]
      exact lastWrite?_self
    · rw [if_neg hkey, lastWrite?_of_ne (.inr hkey)]
      exact ih

/-- What a frame begins with is not written to others. -/
theorem lastWrite?_begin_of_ne (h : frame ≠ other) (bindings : Frame) (name : String) :
    lastWrite? (bindings.map (fun (name, value) => ⟨frame, name, value⟩) ++ writes) other name =
      lastWrite? writes other name := by
  induction bindings with
  | nil => rfl
  | cons b rest ih =>
    rw [List.map_cons, List.cons_append, lastWrite?_of_ne (.inl h)]
    exact ih

/-- Whether frames hold just what was last written to them. -/
def Holds (writes : List Write) : List Nat → List Frame → Prop :=
  List.Forall₂ fun frame held => ∀ name, held.get? name = lastWrite? writes frame name

namespace Holds

variable {live : List Nat} {stack inner outer : List Frame} {held : Frame} {writes' : List Write}

/-- What is written elsewhere does not matter. -/
theorem keep (h : Holds writes live stack)
    (hsame : ∀ frame ∈ live, ∀ name, lastWrite? writes' frame name = lastWrite? writes frame name) :
    Holds writes' live stack := by
  induction h with
  | nil => exact .nil
  | cons hheld _ ih =>
    rw [List.forall_mem_cons] at hsame
    exact .cons (fun name => (hheld name).trans (hsame.1 name).symm) (ih hsame.2)

/-- What holds of a stack holds of both parts of it. -/
theorem split (h : Holds writes live (inner ++ held :: outer)) :
    ∃ above frame below, live = above ++ frame :: below ∧ Holds writes above inner ∧
      (∀ name, held.get? name = lastWrite? writes frame name) ∧ Holds writes below outer := by
  induction inner generalizing live with
  | nil =>
    cases h with
    | cons hheld hrest => exact ⟨[], _, _, rfl, .nil, hheld, hrest⟩
  | cons first rest ih =>
    cases h with
    | cons hfirst hrest =>
      obtain ⟨above, frame, below, rfl, habove, hheld, hbelow⟩ := ih hrest
      exact ⟨_ :: above, frame, below, rfl, .cons hfirst habove, hheld, hbelow⟩

/-- A value written to a frame is bound in it. -/
theorem write {above below : List Nat} (hinner : Holds writes above inner)
    (hheld : ∀ name, held.get? name = lastWrite? writes frame name)
    (houter : Holds writes below outer) (hdistinct : (above ++ frame :: below).Nodup)
    (name : String) (value : Value) :
    Holds (⟨frame, name, value⟩ :: writes) (above ++ frame :: below)
      (inner ++ held.insert name value :: outer) := by
  have helse {fs : List Nat} {st : List Frame} (h : Holds writes fs st) (hno : frame ∉ fs) :
      Holds (⟨frame, name, value⟩ :: writes) fs st :=
    h.keep fun other hother _ => lastWrite?_of_ne (.inl fun he => hno (he ▸ hother))
  rw [List.nodup_append, List.nodup_cons] at hdistinct
  obtain ⟨-, ⟨hbelow, -⟩, hapart⟩ := hdistinct
  have habove : frame ∉ above := fun h => hapart frame h frame List.mem_cons_self rfl
  refine List.rel_append (helse hinner habove) (.cons (fun other => ?_) (helse houter hbelow))
  by_cases hname : name = other
  · rw [← hname, Bindings.get?_insert_self, lastWrite?_self]
  · rw [Bindings.get?_insert_of_ne hname, lastWrite?_of_ne (.inr hname)]
    exact hheld other

/-- Looked up is what was last written in the innermost frame that binds the name. -/
theorem lookup? (h : Holds writes live stack) (name : String) :
    Scopes.lookup? name stack =
      (live.find? fun frame => (lastWrite? writes frame name).isSome).bind
        (lastWrite? writes · name) := by
  induction h with
  | nil => rfl
  | @cons frame held live stack hheld _ ih =>
    rw [Scopes.lookup?, hheld name, List.find?_cons]
    cases hv : lastWrite? writes frame name with
    | some v => exact hv.symm
    | none => exact ih

theorem find?_eq_none (h : Holds writes live stack)
    (hnone : ∀ held ∈ stack, held.get? name = none) :
    live.find? (fun frame => (lastWrite? writes frame name).isSome) = none := by
  induction h with
  | nil => rfl
  | @cons frame held live stack hheld _ ih =>
    rw [List.forall_mem_cons, hheld name] at hnone
    rw [List.find?_cons, hnone.1]
    exact ih hnone.2

end Holds

-- =========================================================== the invariant

/-- Whether a session is as its account has it. -/
structure Account.Describes (a : Account) (s : Session) : Prop where
  holds : Holds a.writes a.live s.scopes.stack
  guards : s.guards = a.opened.map Opened.guard
  calls : s.calls = a.opened.filterMap Opened.call?
  /-- Later frames are further in. -/
  numbered : a.live.Pairwise (· > ·)
  live_lt : ∀ frame ∈ a.live, frame < a.born
  written_lt : ∀ w ∈ a.writes, w.frame < a.born
  global : a.live.getLast? = some 0
  /-- A scope was opened over the global frame at least. -/
  entered : ∀ entry, Opened.scope entry ∈ a.opened → 0 < entry

namespace Account.Describes

variable {a : Account} {s : Session}

theorem initial : Describes {} {} where
  holds := .cons (fun _ => rfl) .nil
  guards := rfl
  calls := rfl
  numbered := List.pairwise_singleton _ _
  live_lt := by simp
  written_lt := by simp
  global := rfl
  entered := by simp

theorem height_eq (h : a.Describes s) : s.scopes.height = a.live.length := by
  rw [← Scopes.length_stack, h.holds.length_eq]

theorem length_calls (h : a.Describes s) : s.calls.length = a.calls.length := by
  rw [h.calls, Account.calls, List.length_reverse]

/-- A new frame has no number that was given before. -/
theorem begin (h : a.Describes s) (bindings : Frame) :
    (a.begin bindings).Describes { s with scopes := s.scopes.push bindings } where
  holds := by
    have hne {frame : Nat} (hlt : frame < a.born) : a.born ≠ frame := by omega
    refine .cons (fun name => ?_) (h.holds.keep fun frame hframe name => ?_)
    · have hnew : ∀ w ∈ a.writes, w.frame ≠ a.born := fun w hw => (hne (h.written_lt w hw)).symm
      exact (lastWrite?_begin hnew bindings name).symm
    · exact lastWrite?_begin_of_ne (hne (h.live_lt frame hframe)) bindings name
  guards := h.guards
  calls := h.calls
  numbered := List.pairwise_cons.2 ⟨h.live_lt, h.numbered⟩
  live_lt := List.forall_mem_cons.2 ⟨Nat.lt_succ_self _, fun frame hframe =>
    Nat.lt_succ_of_lt (h.live_lt frame hframe)⟩
  written_lt := by
    refine List.forall_mem_append.2 ⟨fun w hw => ?_, fun w hw =>
      Nat.lt_succ_of_lt (h.written_lt w hw)⟩
    obtain ⟨b, -, rfl⟩ := List.mem_map.1 hw
    exact Nat.lt_succ_self _
  global := by
    show (a.born :: a.live).getLast? = some 0
    rw [List.getLast?_cons, h.global]
    rfl
  entered := h.entered

/-- Frames are taken off the top, never the last. -/
theorem drop (h : a.Describes s) {n : Nat} (hn : n < a.live.length) {scopes : Scopes}
    (hstack : scopes.stack = s.scopes.stack.drop n) :
    { a with live := a.live.drop n }.Describes { s with scopes } where
  holds := by
    rw [hstack]
    exact List.forall₂_drop n h.holds
  guards := h.guards
  calls := h.calls
  numbered := h.numbered.sublist (List.drop_sublist n _)
  live_lt := fun frame hframe => h.live_lt frame (List.mem_of_mem_drop hframe)
  written_lt := h.written_lt
  global := by
    show (a.live.drop n).getLast? = some 0
    rw [List.getLast?_drop, if_neg (Nat.not_le.2 hn)]
    exact h.global
  entered := h.entered

/-- A value is given to a name in one of the frames. -/
theorem write (h : a.Describes s) {inner outer : List Frame} {held : Frame} {scopes : Scopes}
    {above below : List Nat} {frame : Nat} {name : String} {value : Value}
    (hlive : a.live = above ++ frame :: below) (hinner : Holds a.writes above inner)
    (hheld : ∀ name, held.get? name = a.last? frame name) (houter : Holds a.writes below outer)
    (hstack : scopes.stack = inner ++ held.insert name value :: outer) :
    (a.write frame name value).Describes { s with scopes } where
  holds := by
    have hdistinct : (above ++ frame :: below).Nodup :=
      hlive ▸ h.numbered.imp fun hgt => Nat.ne_of_gt hgt
    rw [hstack]
    show Holds _ a.live _
    rw [hlive]
    exact hinner.write hheld houter hdistinct name value
  guards := h.guards
  calls := h.calls
  numbered := h.numbered
  live_lt := h.live_lt
  written_lt := List.forall_mem_cons.2 ⟨h.live_lt frame (by simp [hlive]), h.written_lt⟩
  global := h.global
  entered := h.entered

/-- What is opened or closed changes no frame. -/
theorem reopen (h : a.Describes s) (opened : List Opened) {calls : List String}
    (hcalls : calls = opened.filterMap Opened.call?)
    (hentered : ∀ entry, Opened.scope entry ∈ opened → 0 < entry) :
    { a with opened }.Describes { s with calls, guards := opened.map Opened.guard } :=
  { h with guards := rfl, calls := hcalls, entered := hentered }

theorem leave (h : a.Describes s) : a.leave.Describes s.leave := by
  unfold Account.leave Session.leave
  rw [h.guards]
  have hentered := h.entered
  have hcalls := h.calls
  cases hopened : a.opened with
  | nil => exact h
  | cons innermost opened =>
    rw [hopened] at hentered hcalls
    have hrest : ∀ entry, Opened.scope entry ∈ opened → 0 < entry := fun entry hentry =>
      hentered entry (List.mem_cons_of_mem _ hentry)
    cases innermost with
    | scope entry =>
      have hpos := hentered entry List.mem_cons_self
      have hlen := List.length_pos_of_mem (List.mem_of_getLast? h.global)
      have hlt : a.live.length - entry < a.live.length := by omega
      have hstack := Scopes.stack_cut s.scopes hpos
      rw [h.height_eq] at hstack
      exact (h.drop hlt hstack).reopen opened hcalls hrest
    | call name =>
      exact h.reopen opened (by rw [hcalls]; rfl) hrest

/-- A name that is bound in no frame, or the innermost one that binds it. -/
theorem binder (h : a.Describes s) (name : String) :
    (a.binder? name = none ∧ ∀ held ∈ s.scopes.stack, held.get? name = none) ∨
      ∃ above frame below inner held outer v, a.binder? name = some frame ∧
        a.live = above ++ frame :: below ∧ s.scopes.stack = inner ++ held :: outer ∧
        Holds a.writes above inner ∧ (∀ name, held.get? name = a.last? frame name) ∧
        Holds a.writes below outer ∧ (∀ other ∈ inner, other.get? name = none) ∧
        held.get? name = some v := by
  rcases Scopes.exists_binder name s.scopes.stack with
    hnone | ⟨inner, held, outer, v, hstack, hinner, hv⟩
  · exact .inl ⟨h.holds.find?_eq_none hnone, hnone⟩
  · have hholds := h.holds
    rw [hstack] at hholds
    obtain ⟨above, frame, below, hlive, habove, hheld, hbelow⟩ := hholds.split
    refine .inr ⟨above, frame, below, inner, held, outer, v, ?_, hlive, hstack, habove, hheld,
      hbelow, hinner, hv⟩
    have hlast : a.last? frame name = some v := (hheld name).symm.trans hv
    rw [Account.binder?, hlive, List.find?_append]
    rw [show above.find? (fun frame => (a.last? frame name).isSome) = none from
      habove.find?_eq_none hinner, List.find?_cons, hlast]
    rfl

theorem assign (h : a.Describes s) (name : String) (value : Value) :
    (a.step (.assign name value)).Describes (s.step (.assign name value)).2 := by
  have hassign := Scopes.stack_assign? s.scopes name value
  rcases h.binder name with ⟨hbinder, hnone⟩ | ⟨above, frame, below, inner, held, outer, v, hbinder,
    hlive, hstack, habove, hheld, hbelow, hinner, hv⟩
  · rw [Scopes.overwrite?_eq_none hnone, Option.map_eq_none_iff] at hassign
    rw [Account.step, Session.step, hbinder, hassign]
    exact h
  · rw [hstack, Scopes.overwrite?_binder hinner hv, Option.map_eq_some_iff] at hassign
    obtain ⟨scopes, hscopes, hstack'⟩ := hassign
    rw [Account.step, Session.step, hbinder, hscopes]
    exact h.write hlive habove hheld hbelow hstack'

/-- After any step a session is as its account has it. -/
theorem step (h : a.Describes s) (step : Step) : (a.step step).Describes (s.step step).2 := by
  cases step with
  | push bindings => exact h.begin bindings
  | pop =>
    rw [Account.step, Session.step, ← h.height_eq]
    by_cases hone : s.scopes.height = 1
    · rw [if_pos hone, (Scopes.pop?_eq_none_iff _).2 hone]
      exact h
    · rw [if_neg hone]
      obtain ⟨⟨frame, scopes⟩, hpop⟩ :=
        Option.ne_none_iff_exists'.1 (mt (Scopes.pop?_eq_none_iff _).1 hone)
      have hheight : s.scopes.height = scopes.height + 1 := by
        rw [← Scopes.length_stack, Scopes.stack_of_pop? hpop, List.length_cons,
          Scopes.length_stack]
      have hlt : 1 < a.live.length := by
        rw [← h.height_eq]
        have : 0 < scopes.height := Nat.succ_pos _
        omega
      rw [hpop, ← List.drop_one]
      exact h.drop hlt (by rw [Scopes.stack_of_pop? hpop]; rfl)
  | declare name value =>
    have hholds := h.holds
    rw [Scopes.stack_eq, ← List.nil_append (s.scopes.current :: _)] at hholds
    obtain ⟨above, frame, below, hlive, habove, hheld, hbelow⟩ := hholds.split
    cases habove
    have hhead : a.live.head?.getD 0 = frame := by
      rw [hlive]
      rfl
    rw [Account.step, hhead]
    exact h.write hlive .nil hheld hbelow (Scopes.stack_declare s.scopes name value)
  | assign name value => exact h.assign name value
  | enterScope bindings =>
    have hlen := List.length_pos_of_mem (List.mem_of_getLast? h.global)
    have hentered : ∀ entry, Opened.scope entry ∈ Opened.scope a.live.length :: a.opened →
        0 < entry := by
      intro entry hentry
      rcases List.mem_cons.1 hentry with he | hentry
      · cases he
        exact hlen
      · exact h.entered entry hentry
    rw [Session.step, h.guards, h.height_eq]
    exact (h.begin bindings).reopen (.scope a.live.length :: a.opened) h.calls hentered
  | enterCall name limit =>
    rw [Account.step, Session.step, h.length_calls]
    by_cases hlimit : limit ≤ (a.calls.length : Int)
    · rw [if_pos hlimit, if_pos hlimit]
      exact h
    · rw [if_neg hlimit, if_neg hlimit, h.guards, h.calls]
      refine h.reopen (.call name :: a.opened) rfl fun entry hentry => h.entered entry ?_
      exact (List.mem_cons.1 hentry).resolve_left fun he => by cases he
  | leave => exact h.leave

theorem run (h : a.Describes s) (steps : List Step) : (a.run steps).Describes (s.run steps) := by
  induction steps generalizing a s with
  | nil => exact h
  | cons first rest ih => exact ih (h.step first)

end Account.Describes

end SamScript.Session
