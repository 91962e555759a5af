/-
Where the started processes come from. In a run of any tree each of them is
either the program that a call names, its name bound in no frame that was
live when it was started, or the shell with the template that a manifest had
for the name of an interface declaration. Both are one invariant of runs: the
foreign functions in scope are those that declarations of the tree registered,
and nothing a program computes or reads from a process is one of them.
-/
import SamScript.Proofs.Eval.Invariant

namespace SamScript

/-- Expressions come to one value each. -/
theorem Eval.length_of_values {env : Env} {call : Eval.Caller} {ns : List Node} {vs : List Value}
    {s t : RunState} (h : Eval.values env call ns s = (.ok vs, t)) : vs.length = ns.length := by
  induction ns generalizing vs s t with
  | nil =>
    rw [Eval.values] at h
    cases h
    rfl
  | cons n rest ih =>
    rw [Eval.values, Run.bind_apply] at h
    rcases hv : Eval.valueOf env call n s with ⟨e | v, u⟩
    · rw [hv] at h
      cases h
    · rw [hv] at h
      dsimp only at h
      rw [Run.bind_apply] at h
      rcases hr : Eval.values env call rest u with ⟨e | ws, w⟩
      · rw [hr] at h
        cases h
      · rw [hr] at h
        cases h
        exact congrArg (· + 1) (ih hr)

-- ============================================================ registration

namespace Surroundings

variable (r : Surroundings) (root : Node) (source : List UInt8)

/-- Whether a template is what a manifest has for the name of an interface
declaration of the tree. -/
def Registers (template : String) : Prop :=
  ∃ n ∈ root.preorder, n.kind = .interface_ ∧
    ∃ path, n.child? .path = some path ∧ ∃ name, n.child? .module_ = some name ∧
      ∃ file, Eval.stringText (r.env root source) path = pure file ∧
        ∃ word, (r.env root source).text name = pure word ∧
          Foreign.entry r.bounds r.host r.config file word = .ok template

/-- Whether a value is no foreign function but one that the tree registers. -/
def OwnForeign (v : Value) : Prop :=
  ∀ template, v = .foreign template → r.Registers root source template

/-- Whether a call of the tree names a program, and its arguments, one value
for each and evaluated from left to right, came to these values in these
scopes. -/
def Names (name : String) (arguments : List Value) (scopes : Scopes) : Prop :=
  ∃ n ∈ root.preorder, n.kind = .callExpression ∧
    ∃ callee, n.child? .function = some callee ∧ callee.kind = .identifier ∧
      (r.env root source).text callee = pure name ∧
      arguments.length = (n.inRole .arguments).length ∧
      ∃ free s t, t.scopes = scopes ∧
        Eval.values (r.env root source) (Eval.enter (r.env root source) free)
          (n.inRole .arguments) s = (.ok arguments, t)

/-- Whether what was started is accounted for by the tree, and so are the
foreign functions that were in scope. -/
structure Accounts (x : Started) : Prop where
  scopes : x.scopes.All (r.OwnForeign root source)
  launch : match x.launch with
    | .program name arguments => r.Names root source name arguments x.scopes ∧
      ∀ frame ∈ x.scopes.frames, frame.get? name = none
    | .template text _ => r.Registers root source text

-- =========================================================== the invariant

variable {r root source}

theorem plain_ownForeign : Value.Plain (r.OwnForeign root source) := by
  constructor <;> (intros; nofun)

/-- A name that nothing is bound to is bound in no frame. -/
theorem unbound_frames {scopes : Scopes} {name : String} (h : scopes.resolve? name = none) :
    ∀ frame ∈ scopes.frames, frame.get? name = none := by
  intro frame hframe
  rw [Scopes.frames_eq, List.mem_reverse] at hframe
  rw [Scopes.resolve?_eq_none_iff] at h
  exact (Bindings.get?_eq_none_iff name frame).2 (h _ (List.mem_map_of_mem hframe))

/-- What comes from outside holds no foreign function. -/
theorem answer_ownForeign {bounds : Bounds} {config : Config} {l : Foreign.Launch}
    {result : Except StartFault Finished} {v : Value} {q : Value → Prop} (hq : Value.Plain q)
    (h : Foreign.answer bounds config l result = .ok v) : v.All q := by
  have hended := Foreign.ended_answer hq bounds config l result
  rw [h] at hended
  exact hended

/-- That everything is accounted for is an invariant of runs. -/
theorem invariant : Eval.Invariant (r.env root source) (r.OwnForeign root source)
    (r.Accounts root source) where
  body _ _ h := Node.mem_preorder_of_descendant? h
  undefined := plain_ownForeign.all_undefined
  string := plain_ownForeign.all_string
  number := plain_ownForeign.all_number?
  array h := Value.all_array.2 ⟨plain_ownForeign.array _, h⟩
  apply _ _ h := plain_ownForeign.all_apply h
  answer h := answer_ownForeign plain_ownForeign h
  lambda _ _ _ _ _ _ _ _ := nofun
  interface_ n hn hk path hpath name hname _ file hfile word hword command hcommand := by
    intro template htemplate
    cases htemplate
    exact ⟨n, hn, hk, path, hpath, name, hname, file, hfile, word, hword, hcommand⟩
  template htext _ hscopes := ⟨hscopes, htext _ rfl⟩
  program n hn hk callee hc hck name hname free s arguments t hvalues hnone _ hscopes :=
    ⟨hscopes, ⟨n, hn, hk, callee, hc, hck, hname, Eval.length_of_values hvalues, free, s, t, rfl,
      hvalues⟩, unbound_frames hnone⟩

end Surroundings

-- ============================================================ the theorem

section

variable (r : Surroundings) (root : Node) (source : List UInt8)

/-- Every process that a run starts is accounted for by the tree. It is the
program that an identifier in call position spells, asked for with one text
for each argument of that call, and the name is bound in no frame that is live
when it is started; or it is the configured shell with the template that a
manifest has for the name of an interface declaration, followed by the
arguments. The foreign functions in scope, then and when the run ends, are
those that declarations registered. No expression of the tree comes to any
other, and what comes from outside holds none. -/
theorem every_process_is_accounted_for :
    (∀ x ∈ (evaluate r root source).2.started, x.scopes.All (r.OwnForeign root source) ∧
      ((∃ name, ∃ arguments : List Value, x.launch.request r.config =
            ⟨name, arguments.map Value.render, r.config.env⟩ ∧
          r.Names root source name arguments x.scopes ∧
          ∀ frame ∈ x.scopes.frames, frame.get? name = none) ∨
        ∃ template, ∃ arguments : List Value, x.launch.request r.config =
            ⟨r.config.shell, ["-c", " ".intercalate (template :: arguments.map Value.render)],
              r.config.env⟩ ∧
          r.Registers root source template)) ∧
    (evaluate r root source).2.scopes.All (r.OwnForeign root source) ∧
    (∀ n ∈ root.preorder, ∀ free s,
      s.Sound (r.OwnForeign root source) (r.Accounts root source) → ∀ v,
        (Eval.valueOf (r.env root source) (Eval.enter (r.env root source) free) n s).1 = .ok v →
          v.All (r.OwnForeign root source)) ∧
    ∀ (launch : Foreign.Launch) result v, Foreign.answer r.bounds r.config launch result = .ok v →
      ∀ template, .foreign template ∉ v.parts := by
  have hinvariant : Eval.Invariant (r.env root source) (r.OwnForeign root source)
      (r.Accounts root source) := Surroundings.invariant
  obtain ⟨hrun, -⟩ := Eval.upholds_program hinvariant {} .initial
  refine ⟨fun x hx => ?_, hrun.scopes, fun n hn free s hs v hv => ?_, fun launch result v hv => ?_⟩
  · obtain ⟨hscopes, hlaunch⟩ := hrun.started x hx
    rcases x with ⟨⟨name, arguments⟩ | ⟨template, arguments⟩, scopes⟩
    · exact ⟨hscopes, .inl ⟨name, arguments, rfl, hlaunch⟩⟩
    · exact ⟨hscopes, .inr ⟨template, arguments, rfl, hlaunch⟩⟩
  · have hn := Eval.upholds hinvariant (Eval.upholds_enter hinvariant free) n hn
    exact (hn.valueOf s hs).2 v hv
  · have hplain : Value.Plain fun v : Value => ∀ template, v ≠ .foreign template := by
      constructor <;> (intros; nofun)
    intro template hmem
    exact Surroundings.answer_ownForeign hplain hv _ hmem template rfl

end

/-- A program that runs a foreign function and, with its answer, the program
of a name that nothing is bound to. -/
theorem every_process_is_accounted_for_two_processes :
    let r : Surroundings :=
      { host := ⟨fun _ => .ok (Utf8.encode "\x7b\"f\": \"echo\"\x7d".toList), fun _ _ => .ok ⟨[49], [], 0⟩⟩ }
    ∃ tree, Tree.ofSource {} none "interface \"m\" load f; ls(f(1));" = .ok tree ∧
      (evaluate r tree.root tree.source).2.started.length = 2 ∧
      ∀ x ∈ (evaluate r tree.root tree.source).2.started,
        (∃ name arguments, r.Names tree.root tree.source name arguments x.scopes ∧
          ∀ frame ∈ x.scopes.frames, frame.get? name = none) ∨
        ∃ template, r.Registers tree.root tree.source template := by
  intro r
  have hrun : (Tree.ofSource {} none "interface \"m\" load f; ls(f(1));").toOption.any
      (fun tree => (evaluate r tree.root tree.source).2.started.length = 2) = true := by
    decide +kernel
  rcases htree : Tree.ofSource {} none "interface \"m\" load f; ls(f(1));" with e | tree
  · rw [htree] at hrun
    cases hrun
  · rw [htree] at hrun
    refine ⟨tree, rfl, of_decide_eq_true hrun, fun x hx => ?_⟩
    have h := (every_process_is_accounted_for r tree.root tree.source).1 x hx
    rcases h.2 with ⟨name, arguments, -, hnames⟩ | ⟨template, _, -, hregisters⟩
    · exact .inl ⟨name, arguments, hnames⟩
    · exact .inr ⟨template, hregisters⟩

end SamScript
