/-
Frames that bind nothing. An empty frame between others hides no name and catches no
assignment, so a stack of frames with empty ones among them (`Padded`) is as good as
the stack without them: names mean the same in it, and assignments change the same
frames. Only a declaration would show, in an empty frame that is the current one.
Steps of evaluation that start on two such stacks, and declare nothing there, come to
the same result, the same calls and the same programs started, on two such stacks
again (`Run.Padded`).
-/
import Mathlib.Data.Option.Basic
import SamScript.Proofs.Eval.Still

namespace SamScript

variable {φ α β : Type}

-- ================================================================= frames

/-- Whether some frames are others with empty ones among them. The shape tells, from
the innermost frame on, which are those that came among the others. -/
inductive PaddedFrames : List Bool → List (Frame φ) → List (Frame φ) → Prop
  | nil : PaddedFrames [] [] []
  | frame (frame : Frame φ) {shape : List Bool} {fs gs : List (Frame φ)}
      (h : PaddedFrames shape fs gs) : PaddedFrames (false :: shape) (frame :: fs) (frame :: gs)
  | empty {shape : List Bool} {fs gs : List (Frame φ)} (h : PaddedFrames shape fs gs) :
      PaddedFrames (true :: shape) fs ([] :: gs)

/-- Whether a scope stack is another one with empty frames among the inner ones. -/
structure Scopes.Padded (shape : List Bool) (s t : Scopes φ) : Prop where
  inner : PaddedFrames shape s.inner t.inner
  globals : t.globals = s.globals

variable {shape : List Bool} {fs gs : List (Frame φ)}

namespace PaddedFrames

theorem refl (fs : List (Frame φ)) :
    PaddedFrames (List.replicate fs.length false) fs fs := by
  induction fs with
  | nil => exact .nil
  | cons frame fs ih => exact .frame frame ih

/-- Without empty frames there is nothing to tell two stacks apart. -/
theorem eq {k : Nat} (h : PaddedFrames (List.replicate k false) fs gs) : gs = fs := by
  induction k generalizing fs gs with
  | zero =>
    cases h
    rfl
  | succ k ih =>
    cases h with
    | frame frame h => rw [ih h]

theorem length_left (h : PaddedFrames shape fs gs) : fs.length = shape.count false := by
  induction h with
  | nil => rfl
  | frame _ _ ih => simp [ih]
  | empty _ ih => simp [ih]

theorem length_right (h : PaddedFrames shape fs gs) : gs.length = shape.length := by
  induction h with
  | nil => rfl
  | frame _ _ ih => simp [ih]
  | empty _ ih => simp [ih]

theorem lookup?_eq (h : PaddedFrames shape fs gs) (name : String) :
    Scopes.lookup? name gs = Scopes.lookup? name fs := by
  induction h with
  | nil => rfl
  | frame frame _ ih => rw [Scopes.lookup?, Scopes.lookup?, ih]
  | empty _ ih => exact ih

theorem rel_overwrite? (h : PaddedFrames shape fs gs) (name : String) (value : Value φ) :
    Option.Rel (PaddedFrames shape) (Scopes.overwrite? name value fs)
      (Scopes.overwrite? name value gs) := by
  induction h with
  | nil => exact .none
  | @frame frame _ fs gs h ih =>
    rw [Scopes.overwrite?, Scopes.overwrite?]
    split
    · exact .some (.frame _ h)
    · generalize Scopes.overwrite? name value fs = o, Scopes.overwrite? name value gs = o' at ih
      cases ih with
      | none => exact .none
      | some h => exact .some (.frame frame h)
  | @empty _ fs gs _ ih =>
    show Option.Rel _ _ ((Scopes.overwrite? name value gs).map ([] :: ·))
    generalize Scopes.overwrite? name value fs = o, Scopes.overwrite? name value gs = o' at ih
    cases ih with
    | none => exact .none
    | some h => exact .some (.empty h)

end PaddedFrames

namespace Scopes.Padded

variable {s s' t t' : Scopes φ}

theorem refl (s : Scopes φ) : s.Padded (List.replicate s.inner.length false) s :=
  ⟨.refl s.inner, rfl⟩

theorem eq {k : Nat} (h : s.Padded (List.replicate k false) t) : t = s := by
  rcases s with ⟨inner, globals⟩
  rcases t with ⟨inner', globals'⟩
  obtain rfl : inner' = inner := h.inner.eq
  obtain rfl : globals' = globals := h.globals
  rfl

theorem resolve?_eq (h : s.Padded shape t) (name : String) :
    t.resolve? name = s.resolve? name := by
  unfold resolve?
  rw [h.inner.lookup?_eq, h.globals]

theorem rel_assign? (h : s.Padded shape t) (name : String) (value : Value φ) :
    Option.Rel (Scopes.Padded shape) (s.assign? name value) (t.assign? name value) := by
  have hinner := h.inner.rel_overwrite? name value
  unfold assign?
  rw [h.globals]
  generalize overwrite? name value s.inner = o, overwrite? name value t.inner = o' at hinner
  cases hinner with
  | some hinner => exact .some ⟨hinner, rfl⟩
  | none =>
    dsimp only
    split
    · exact .some ⟨h.inner, rfl⟩
    · exact .none

/-- A declaration does not show where the current frame is not one of the empty
ones. -/
theorem declare (h : s.Padded shape t) (hshape : shape.head? ≠ some true) (name : String)
    (value : Value φ) : (s.declare name value).Padded shape (t.declare name value) := by
  rcases s with ⟨inner, globals⟩
  rcases t with ⟨inner', globals'⟩
  obtain ⟨hinner, hglobals⟩ := h
  cases hinner with
  | nil => exact ⟨.nil, congrArg (Bindings.insert name value) hglobals⟩
  | frame frame h => exact ⟨.frame _ h, hglobals⟩
  | empty h => exact absurd rfl hshape

theorem push (h : s.Padded shape t) (frame : Frame φ) :
    (s.push frame).Padded (false :: shape) (t.push frame) :=
  ⟨.frame frame h.inner, h.globals⟩

theorem push_empty (h : s.Padded shape t) : s.Padded (true :: shape) (t.push []) :=
  ⟨.empty h.inner, h.globals⟩

/-- Cutting back takes off the frame that was put on top. -/
theorem cut (h : s.Padded shape t) (h' : s'.Padded (false :: shape) t') :
    (s'.cutTo s.height).Padded shape (t'.cutTo t.height) := by
  have hs := h.inner.length_left
  have ht := h.inner.length_right
  rcases s' with ⟨inner, globals⟩
  rcases t' with ⟨inner', globals'⟩
  obtain ⟨hinner, hglobals⟩ := h'
  cases hinner with
  | @frame frame _ fs gs hrest =>
    refine ⟨?_, hglobals⟩
    simp only [cutTo, height, List.length_cons, hs, ht, hrest.length_left, hrest.length_right,
      Nat.add_sub_cancel_left, List.drop_succ_cons, List.drop_zero]
    exact hrest

/-- Cutting back the second stack takes off the empty frame that was put on top of
it. -/
theorem cut_empty (h : s.Padded shape t) (h' : s'.Padded (true :: shape) t') :
    s'.Padded shape (t'.cutTo t.height) := by
  have ht := h.inner.length_right
  rcases t' with ⟨inner', globals'⟩
  obtain ⟨hinner, hglobals⟩ := h'
  generalize hs : s'.inner = inner at hinner
  cases hinner with
  | @empty _ fs gs hrest =>
    refine ⟨?_, hglobals⟩
    simp only [cutTo, height, List.length_cons, ht, hrest.length_right,
      Nat.add_sub_cancel_left, List.drop_succ_cons, List.drop_zero, hs]
    exact hrest

end Scopes.Padded

-- =================================================================== runs

/-- Whether a state is another one with empty frames among the inner ones. The programs
that were started are the same, whatever the frames were then. -/
structure RunState.Padded (shape : List Bool) (s t : RunState φ) : Prop where
  scopes : s.scopes.Padded shape t.scopes
  calls : t.calls = s.calls
  started : t.started.map Started.launch = s.started.map Started.launch

theorem RunState.Padded.refl (s : RunState φ) :
    s.Padded (List.replicate s.scopes.inner.length false) s :=
  ⟨.refl s.scopes, rfl, rfl⟩

namespace Run

/-- What two steps came to: the same result in states that differ in empty frames. If
steps may be `exhausting`, nothing is asked of one beside another that was exhausted. -/
inductive PaddedEnd (exhausting : Prop) (shape : List Bool) :
    Except Failure α × RunState φ → Except Failure α × RunState φ → Prop
  | same (r : Except Failure α) {s t : RunState φ} (h : s.Padded shape t) :
      PaddedEnd exhausting shape (r, s) (r, t)
  | left (h : exhausting) (s : RunState φ) (r : Except Failure α × RunState φ) :
      PaddedEnd exhausting shape (.error .exhausted, s) r
  | right (h : exhausting) (r : Except Failure α × RunState φ) (t : RunState φ) :
      PaddedEnd exhausting shape r (.error .exhausted, t)

/-- Whether two steps come to the same from states that differ in empty frames. -/
def Padded (exhausting : Prop) (shape : List Bool) (x y : Run φ α) : Prop :=
  ∀ s t, s.Padded shape t → PaddedEnd exhausting shape (x s) (y t)

variable {exhausting : Prop} {x y : Run φ α}

-- ------------------------------------------------------------- single steps

theorem padded_pure (a : α) : Padded exhausting shape (pure a : Run φ α) (pure a) :=
  fun _ _ h => .same (.ok a) h

theorem padded_fail (e : Failure) : Padded exhausting shape (fail e : Run φ α) (fail e) :=
  fun _ _ h => .same (.error e) h

theorem padded_fault (e : EvalFault) : Padded exhausting shape (fault e : Run φ α) (fault e) :=
  padded_fail _

/-- A step that does not look at the state comes to the same everywhere. -/
theorem Settled.padded (h : Settled x) : Padded exhausting shape x x := by
  rcases h with ⟨a, rfl⟩ | ⟨e, rfl⟩
  · exact padded_pure a
  · exact padded_fail e

theorem padded_modifyScopes {f g : Scopes φ → Scopes φ}
    (h : ∀ s t, s.Padded shape t → (f s).Padded shape (g t)) :
    Padded exhausting shape (modifyScopes f) (modifyScopes g) :=
  fun _ _ hs => .same (.ok ()) ⟨h _ _ hs.scopes, hs.calls, hs.started⟩

/-- A bound is met, or there is one and the step is exhausted. -/
theorem within_cases (bound : Option Nat) (measure : RunState φ → Nat) (s : RunState φ) :
    within bound measure s = (.ok (), s) ∨
      bound ≠ none ∧ within bound measure s = (.error .exhausted, s) := by
  cases bound with
  | none => exact .inl rfl
  | some b =>
    unfold within
    dsimp only
    split
    · exact .inr ⟨Option.some_ne_none b, rfl⟩
    · exact .inl rfl

/-- Bounds whatever they are on, where steps may be exhausting if there are any. -/
theorem padded_within {bound bound' : Option Nat}
    (h : bound ≠ none ∨ bound' ≠ none → exhausting) (measure measure' : RunState φ → Nat) :
    Padded exhausting shape (within bound measure) (within bound' measure') := by
  intro s t hs
  rcases within_cases bound measure s with hx | ⟨hbound, hx⟩
  · rcases within_cases bound' measure' t with hy | ⟨hbound', hy⟩
    · rw [hx, hy]
      exact .same (.ok ()) hs
    · rw [hy]
      exact .right (h (.inr hbound')) _ t
  · rw [hx]
    exact .left (h (.inl hbound)) s _

/-- A bound on the active calls, which are the same ones. -/
theorem padded_withinCalls (bound : Option Nat) :
    Padded exhausting shape (within bound fun s : RunState φ => s.calls.length)
      (within bound fun s => s.calls.length) := by
  intro s t hs
  cases bound with
  | none => exact .same (.ok ()) hs
  | some b =>
    unfold within
    simp only [hs.calls]
    split
    · exact .same (.error .exhausted) hs
    · exact .same (.ok ()) hs

/-- A program is started with the same request after the same ones. -/
theorem padded_launch [Callable φ] {env env' : Env φ} (hhost : env'.host = env.host)
    (hconfig : env'.config = env.config) (hbounds : env'.bounds = env.bounds)
    (l : Foreign.Launch φ) : Padded exhausting shape (launch env l) (launch env' l) := by
  intro s t hs
  have hpast : t.started.map (fun started => started.launch.request env.config) =
      s.started.map fun started => started.launch.request env.config := by
    have hrequests := congrArg (List.map (·.request env.config)) hs.started
    rwa [List.map_map, List.map_map] at hrequests
  unfold launch
  rw [hhost, hconfig, hbounds]
  dsimp only
  rw [hpast]
  generalize env.host.start _ _ = result
  refine .same _ ⟨hs.scopes, hs.calls, ?_⟩
  cases result with
  | error fault => exact hs.started
  | ok finished => exact congrArg (l :: ·) hs.started

-- ------------------------------------------------------------ combinations

theorem Padded.bind {f g : α → Run φ β} (hx : Padded exhausting shape x y)
    (hf : ∀ a, Padded exhausting shape (f a) (g a)) :
    Padded exhausting shape (x >>= f) (y >>= g) := by
  intro s t hs
  have h := hx s t hs
  rw [bind_apply, bind_apply]
  generalize x s = r, y t = r' at h
  cases h with
  | same r h =>
    cases r with
    | error e => exact .same (.error e) h
    | ok a => exact hf a _ _ h
  | left h s _ => exact .left h s _
  | right h _ t => exact .right h _ t

/-- Looking at the scopes, and then more. -/
theorem padded_scopes_bind {f g : Scopes φ → Run φ β}
    (h : ∀ s t, s.Padded shape t → Padded exhausting shape (f s) (g t)) :
    Padded exhausting shape (scopes >>= f) (scopes >>= g) :=
  fun s t hs => h s.scopes t.scopes hs.scopes s t hs

theorem Padded.located (hx : Padded exhausting shape x y) (place : Place) :
    Padded exhausting shape (located place x) (located place y) := by
  intro s t hs
  have h := hx s t hs
  unfold Run.located
  generalize x s = r, y t = r' at h
  cases h with
  | same r h =>
    cases r with
    | error e => exact .same (.error (e.locate place)) h
    | ok a => exact .same (.ok a) h
  | left h s _ => exact .left h s _
  | right h _ t => exact .right h _ t

theorem Padded.inScope (frame : Frame φ) (hx : Padded exhausting (false :: shape) x y) :
    Padded exhausting shape (inScope frame x) (inScope frame y) := by
  intro s t hs
  have h := hx { s with scopes := s.scopes.push frame } { t with scopes := t.scopes.push frame }
    ⟨hs.scopes.push frame, hs.calls, hs.started⟩
  unfold Run.inScope
  generalize x _ = r, y _ = r' at h
  cases h with
  | same r h => exact .same r ⟨hs.scopes.cut h.scopes, h.calls, h.started⟩
  | left h s _ => exact .left h _ _
  | right h _ t => exact .right h _ _

/-- An empty frame around the second step. -/
theorem Padded.inScope_empty (hx : Padded exhausting (true :: shape) x y) :
    Padded exhausting shape x (Run.inScope [] y) := by
  intro s t hs
  have h := hx s { t with scopes := t.scopes.push [] }
    ⟨hs.scopes.push_empty, hs.calls, hs.started⟩
  unfold Run.inScope
  generalize x s = r, y _ = r' at h
  cases h with
  | same r h => exact .same r ⟨hs.scopes.cut_empty h.scopes, h.calls, h.started⟩
  | left h s _ => exact .left h _ _
  | right h _ t => exact .right h _ _

theorem Padded.inCall (name : String) (hx : Padded exhausting shape x y) :
    Padded exhausting shape (inCall name x) (inCall name y) := by
  intro s t hs
  have h := hx { s with calls := name :: s.calls } { t with calls := name :: t.calls }
    ⟨hs.scopes, congrArg (name :: ·) hs.calls, hs.started⟩
  unfold Run.inCall
  generalize x _ = r, y _ = r' at h
  cases h with
  | same r h => exact .same r ⟨h.scopes, congrArg List.tail h.calls, h.started⟩
  | left h s _ => exact .left h _ _
  | right h _ t => exact .right h _ _

/-- Steps that come to the same with and without empty frames come to the same, in the
same scopes, if they start together. -/
theorem Padded.same_end (s : RunState φ)
    (hx : Padded exhausting (List.replicate s.scopes.inner.length false) x y) :
    ((y s).1 = (x s).1 ∧ (y s).2.scopes = (x s).2.scopes ∧ (y s).2.calls = (x s).2.calls ∧
      (y s).2.started.map Started.launch = (x s).2.started.map Started.launch) ∨
    exhausting ∧ ((x s).1 = .error .exhausted ∨ (y s).1 = .error .exhausted) := by
  have h := hx s s (.refl s)
  generalize x s = r, y s = r' at h
  cases h with
  | same r h => exact .inl ⟨rfl, h.scopes.eq, h.calls, h.started⟩
  | left h s _ => exact .inr ⟨h, .inl rfl⟩
  | right h _ t => exact .inr ⟨h, .inr rfl⟩

end Run

end SamScript
