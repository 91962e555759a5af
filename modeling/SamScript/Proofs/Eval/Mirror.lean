/-
Steps of evaluation side by side. The functions of one side are kept in one
way, those of the other in another, and `e` takes one to the other. A step
is mirrored by another one (`Run.Mirrors`) if from mapped states it comes to
the mapped result and the mapped state; on the way it keeps what holds of all
values in scope, and it fails in no way that only a misshapen tree could
cause. Mirroring goes from steps to what is made of them: sequences, scopes,
calls.
-/
import SamScript.Eval.Program
import SamScript.Proofs.Value.Map

namespace SamScript

variable {φ ψ α β γ δ : Type}

-- ================================================================ failures

/-- The faults that only a misshapen tree can cause. -/
def EvalFault.isDefensive : EvalFault → Bool
  | .shape _ _ | .unknownOperator _ => true
  | _ => false

/-- The aborts that only a misshapen tree can cause. -/
def Abort.isDefensive : Abort → Bool
  | .brokenText _ | .missingExpression | .missingOperator => true
  | _ => false

/-- The failures that only a misshapen tree can cause. -/
def Failure.isDefensive : Failure → Bool
  | .fault cause _ => cause.isDefensive
  | .abort cause => cause.isDefensive
  | .exhausted => false

theorem Failure.isDefensive_locate (e : Failure) (place : Place) :
    (e.locate place).isDefensive = e.isDefensive := by
  unfold Failure.locate
  split <;> rfl

-- ==================================================================== maps

/-- What is started, its arguments with functions kept in another way. -/
def Foreign.Launch.map (e : φ → ψ) : Foreign.Launch φ → Foreign.Launch ψ
  | .program name arguments => .program name (arguments.map (Value.map e))
  | .template text arguments => .template text (arguments.map (Value.map e))

def Started.map (e : φ → ψ) (x : Started φ) : Started ψ :=
  ⟨x.launch.map e, x.scopes.map e⟩

/-- A state with its functions kept in another way. -/
def RunState.map (e : φ → ψ) (s : RunState φ) : RunState ψ :=
  { scopes := s.scopes.map e
    calls := s.calls
    started := s.started.map (Started.map e) }

def Signal.map (e : φ → ψ) : Signal φ → Signal ψ
  | .value v => .value (v.map e)
  | .returned v => .returned (v.map e)

/-- Whether something holds of the value that a signal carries. -/
def Signal.All (q : Value φ → Prop) : Signal φ → Prop
  | .value v | .returned v => v.All q

namespace Eval.Target

def map (e : φ → ψ) : Target φ → Target ψ
  | .function f => .function (e f)
  | .foreign template => .foreign template
  | .program => .program

/-- Whether something holds of what a call runs, as a value. -/
def All (q : Value φ → Prop) : Target φ → Prop
  | .function f => q (.function f)
  | .foreign template => q (.foreign template)
  | .program => True

end Eval.Target

-- ================================================================== mirrors

namespace Run

/-- Whether `post` holds of what a step came to, or else it failed only as a
program can. -/
def Ended (post : α → Prop) : Except Failure α → Prop
  | .ok a => post a
  | .error f => f.isDefensive = false

/-- What one step does, the other one does to whatever is mapped. Whatever
holds of all values in scope still holds afterwards. -/
def Mirrors (e : φ → ψ) (q : Value φ → Prop) (post : α → Prop) (g : α → β)
    (x : Run φ α) (y : Run ψ β) : Prop :=
  ∀ s, s.scopes.All q →
    y (s.map e) = ((x s).1.map g, (x s).2.map e) ∧ (x s).2.scopes.All q ∧ Ended post (x s).1

variable {e : φ → ψ} {q : Value φ → Prop} {post : α → Prop} {g : α → β}
  {after : γ → Prop} {k : γ → δ} {x : Run φ α} {y : Run ψ β}

theorem mirrors_pure {a : α} (h : post a) : Mirrors e q post g (pure a) (pure (g a)) :=
  fun _ hs => ⟨rfl, hs, h⟩

theorem mirrors_fail {f : Failure} (h : f.isDefensive = false) :
    Mirrors e q post g (fail f) (fail f) :=
  fun _ hs => ⟨rfl, hs, h⟩

theorem mirrors_fault {f : EvalFault} (h : f.isDefensive = false) :
    Mirrors e q post g (fault f) (fault f) :=
  fun _ hs => ⟨rfl, hs, h⟩

theorem mirrors_lift {x : Except Failure α} {y : Except Failure β} (h : Ended post x)
    (hy : y = x.map g) : Mirrors e q post g (lift x) (lift y) :=
  fun _ hs => ⟨congrArg (·, _) hy, hs, h⟩

theorem mirrors_scopes : Mirrors e q (·.All q) (Scopes.map e) scopes scopes :=
  fun _ hs => ⟨rfl, hs, hs⟩

theorem mirrors_modifyScopes {f : Scopes φ → Scopes φ} {f' : Scopes ψ → Scopes ψ}
    (h : ∀ s, s.All q → (f s).All q) (h' : ∀ s, f' (s.map e) = (f s).map e) :
    Mirrors e q (fun _ => True) id (modifyScopes f) (modifyScopes f') := by
  refine fun s hs => ⟨?_, h s.scopes hs, trivial⟩
  show (Except.ok (), { s.map e with scopes := f' (s.scopes.map e) }) = _
  rw [h']
  rfl

theorem mirrors_within (bound : Option Nat) {measure : RunState φ → Nat}
    {measure' : RunState ψ → Nat} (h : ∀ s, measure' (s.map e) = measure s) :
    Mirrors e q (fun _ => True) id (within bound measure) (within bound measure') := by
  intro s hs
  unfold within
  rw [h]
  split
  · exact ⟨rfl, hs, trivial⟩
  · split
    · exact ⟨rfl, hs, rfl⟩
    · exact ⟨rfl, hs, trivial⟩

/-- Steps one after the other are mirrored one after the other. -/
theorem Mirrors.bind {f : α → Run φ γ} {f' : β → Run ψ δ} (hx : Mirrors e q post g x y)
    (hf : ∀ a, post a → Mirrors e q after k (f a) (f' (g a))) :
    Mirrors e q after k (x >>= f) (y >>= f') := by
  intro s hs
  obtain ⟨hsame, hkept, hpost⟩ := hx s hs
  rw [bind_apply, bind_apply, hsame]
  generalize x s = r at hkept hpost ⊢
  rcases r with ⟨failure | a, t⟩
  · exact ⟨rfl, hkept, hpost⟩
  · exact hf a hpost t hkept

theorem Mirrors.mono {post' : α → Prop} (hx : Mirrors e q post g x y)
    (h : ∀ a, post a → post' a) : Mirrors e q post' g x y := by
  intro s hs
  obtain ⟨hsame, hkept, hpost⟩ := hx s hs
  refine ⟨hsame, hkept, ?_⟩
  generalize (x s).1 = r at hpost ⊢
  rcases r with failure | a
  · exact hpost
  · exact h a hpost

theorem Mirrors.located (hx : Mirrors e q post g x y) (place : Place) :
    Mirrors e q post g (located place x) (located place y) := by
  intro s hs
  obtain ⟨hsame, hkept, hpost⟩ := hx s hs
  unfold Run.located
  rw [hsame]
  generalize x s = r at hkept hpost ⊢
  rcases r with ⟨failure | a, t⟩
  · exact ⟨rfl, hkept, (Failure.isDefensive_locate failure place).trans hpost⟩
  · exact ⟨rfl, hkept, hpost⟩

theorem Mirrors.blamed (hx : Mirrors e q post g x y) (place : Place) :
    Mirrors e q post g (Eval.blamed place x) (Eval.blamed place y) := by
  intro s hs
  obtain ⟨hsame, hkept, hpost⟩ := hx s hs
  unfold Eval.blamed
  rw [hsame]
  generalize x s = r at hkept hpost ⊢
  rcases r with ⟨failure | a, t⟩
  · cases failure with
    | exhausted => exact ⟨rfl, hkept, rfl⟩
    | fault | abort => exact ⟨rfl, hkept, hpost⟩
  · exact ⟨rfl, hkept, hpost⟩

theorem Mirrors.inScope (hx : Mirrors e q post g x y) {frame : Frame φ}
    (hframe : Frame.All q frame) :
    Mirrors e q post g (inScope frame x) (inScope (Frame.map e frame) y) := by
  intro s hs
  obtain ⟨hsame, hkept, hpost⟩ :=
    hx { s with scopes := s.scopes.push frame } (hs.push hframe)
  refine ⟨?_, hkept.cutTo _, hpost⟩
  have hpushed : ({ s.map e with scopes := (s.map e).scopes.push (Frame.map e frame) } :
      RunState ψ) = RunState.map e { s with scopes := s.scopes.push frame } := rfl
  have hheight : (s.map e).scopes.height = s.scopes.height := Scopes.height_map
  unfold Run.inScope
  rw [hpushed, hsame, hheight]
  exact congrArg (fun scopes => (_, { RunState.map e _ with scopes })) Scopes.map_cutTo.symm

theorem Mirrors.inCall (hx : Mirrors e q post g x y) (name : String) :
    Mirrors e q post g (inCall name x) (inCall name y) := by
  intro s hs
  obtain ⟨hsame, hkept, hpost⟩ := hx { s with calls := name :: s.calls } hs
  refine ⟨?_, hkept, hpost⟩
  have hentered : ({ s.map e with calls := name :: (s.map e).calls } : RunState ψ) =
      RunState.map e { s with calls := name :: s.calls } := rfl
  unfold Run.inCall
  rw [hentered, hsame]
  rfl

end Run

-- ================================================================ outside

namespace Foreign

variable {e : φ → ψ} {q : Value φ → Prop}

theorem outputText_error {config : Config} {bytes : List UInt8} {f : Failure}
    (h : outputText config bytes = .error f) : f.isDefensive = false := by
  unfold outputText at h
  split at h
  · cases h
  · cases h
    rfl

/-- What a program outside answers holds no function. -/
theorem ended_outputValue (hq : Value.Plain q) (bounds : Bounds) (command text : String) :
    Run.Ended (·.All q) (outputValue bounds command text) := by
  unfold outputValue
  split
  · exact rfl
  · exact rfl
  · rename_i json hjson
    split
    · rename_i v hv
      exact hq.all_ofJson? json (Json.readWithin_distinct hjson) hv
    · exact rfl

theorem outputValue_map (bounds : Bounds) (command text : String) :
    (outputValue bounds command text : Except Failure (Value ψ)) =
      (outputValue bounds command text).map (Value.map e) := by
  unfold outputValue
  split
  · rfl
  · rfl
  · rename_i json _
    rw [Value.ofJson?_map json]
    cases (Value.ofJson? json : Option (Value φ)) <;> rfl

variable [Callable φ] [Callable ψ]

section

variable (h : ∀ f, Callable.parameters (e f) = Callable.parameters f)

include h

theorem render_arguments_map (arguments : List (Value φ)) :
    (arguments.map (Value.map e)).map Value.render = arguments.map Value.render := by
  rw [List.map_map]
  exact List.map_congr_left fun v _ => Value.render_map h v

theorem Launch.command_map (l : Launch φ) : (l.map e).command = l.command := by
  cases l with
  | program name arguments | template text arguments =>
    unfold Launch.map command
    dsimp only
    rw [render_arguments_map h]

/-- What is asked of the host does not tell how functions are kept. -/
theorem Launch.request_map (config : Config) (l : Launch φ) :
    (l.map e).request config = l.request config := by
  cases l with
  | program name arguments =>
    exact congrArg (fun texts => Request.mk name texts config.env) (render_arguments_map h arguments)
  | template text arguments =>
    have hcommand := Launch.command_map h (.template text arguments)
    exact congrArg (fun command => Request.mk config.shell ["-c", command] config.env) hcommand

theorem answer_map (bounds : Bounds) (config : Config) (l : Launch φ)
    (result : Except StartFault Finished) :
    answer bounds config (l.map e) result = (answer bounds config l result).map (Value.map e) := by
  cases result with
  | error fault =>
    show Except.error (Failure.fault (.startFailed (l.map e).command _) none) = _
    rw [Launch.command_map h]
    rfl
  | ok finished =>
    cases l with
    | program name arguments =>
      show (outputText config finished.stdout >>= fun stdout =>
        outputText config finished.stderr >>= fun stderr => _) = _
      unfold answer
      dsimp only
      cases outputText config finished.stdout with
      | error failure => rfl
      | ok stdout => cases outputText config finished.stderr <;> rfl
    | template text arguments =>
      have hcommand := Launch.command_map h (.template text arguments)
      show (outputText config finished.stdout >>= fun text => outputValue bounds
        (Launch.map e (.template _ arguments)).command text) = _
      rw [hcommand]
      unfold answer
      dsimp only
      cases outputText config finished.stdout with
      | error failure => rfl
      | ok text => exact outputValue_map bounds _ text

end

/-- What comes from outside is no defensive failure and holds no function. -/
theorem ended_answer (hq : Value.Plain q) (bounds : Bounds) (config : Config) (l : Launch φ)
    (result : Except StartFault Finished) :
    Run.Ended (·.All q) (answer bounds config l result) := by
  cases result with
  | error fault => exact rfl
  | ok finished =>
    unfold answer
    dsimp only
    split
    · cases ht : outputText config finished.stdout with
      | error failure => exact outputText_error ht
      | ok text => exact ended_outputValue hq bounds _ text
    · cases ho : outputText config finished.stdout with
      | error failure => exact outputText_error ho
      | ok stdout =>
        cases he : outputText config finished.stderr with
        | error failure => exact outputText_error he
        | ok stderr =>
          have hnames : ["stdout", "stderr", "status"].Nodup := by decide
          refine Value.all_object.2 ⟨hq.object _ hnames, ?_⟩
          rw [List.forall_mem_cons, List.forall_mem_cons, List.forall_mem_singleton]
          exact ⟨hq.all_string stdout, hq.all_string stderr, hq.all_int _⟩

end Foreign

end SamScript
