/-
Where reports point. A report about a text has a span whichever step it comes
from: the words, the grammar or the run of the program. Both ends of the span
are places of the text, counted three ways that agree (`Span.PointsInto`), for
a faulty word covers a part of the text, a fault of the grammar is at a token
or at the end, and every node of the tree covers a part again.

A fault of a run is reported at one node (`Eval.Blames`). It is the innermost
node in progress when the cause was raised, and it stays the place of the
failure in all that was in progress around it; or it is a statement of the
program itself that ended in a return.
-/
import SamScript.CommandLine.Outcome
import SamScript.Proofs.Eval.Blame
import SamScript.Proofs.Token.Coordinates
import SamScript.Proofs.Tree.Faults
import SamScript.Proofs.Tree.WellFormed

namespace SamScript

-- ================================================================== nodes

/-- A node is reported at the places that it covers. -/
theorem Env.span_place {φ : Type} (env : Env φ) {n : Node} {whole : List Char}
    (hplaced : n.extent.Placed whole) :
    ∃ s : Span, s.start.Within whole ∧ s.stop.Within whole ∧ n.extent = s.extent ∧
      (env.place n).span = ⟨s.start, s.stop, env.file⟩ := by
  obtain ⟨s, hstart, hstop, hextent⟩ := hplaced
  -- rows and columns count from zero in a node, and from one in a report
  have hpoint {p : Position} (hp : p.Within whole) :
      (⟨p.point.row + 1, p.point.column + 1, p.offset⟩ : Position) = p := by
    obtain ⟨hline, hcolumn⟩ := hp.pos
    show (⟨p.line - 1 + 1, p.column - 1 + 1, p.offset⟩ : Position) = p
    rw [Nat.sub_add_cancel hline, Nat.sub_add_cancel hcolumn]
  refine ⟨s, hstart, hstop, hextent, ?_⟩
  unfold Env.place
  rw [hextent]
  show Span.mk ⟨s.start.point.row + 1, s.start.point.column + 1, s.start.offset⟩
    ⟨s.stop.point.row + 1, s.stop.point.column + 1, s.stop.offset⟩ env.file = _
  rw [hpoint hstart, hpoint hstop]

/-- A node that covers a stretch of the text is reported at it. -/
theorem Env.span_place_pointsInto {φ : Type} (env : Env φ) {n : Node} {whole : List Char}
    (hplaced : n.extent.Placed whole) (hordered : n.Ordered) :
    (env.place n).span.PointsInto whole := by
  obtain ⟨s, hstart, hstop, hextent, hspan⟩ := env.span_place hplaced
  have hle : s.start.offset ≤ s.stop.offset := by
    have hin := hordered.le
    rwa [hextent] at hin
  rw [hspan]
  exact Span.pointsInto_of_within hstart hstop hle

-- ================================================================== blame

namespace Eval

variable {φ : Type} [Callable φ] [DecidableEq φ] {env : Env φ}

/-- Whether a node is to blame for a failure of the program of an environment.
Either it is the innermost of all that was in progress when the cause was
raised, and whatever was in progress around it ended in the same failure at
the same place; if the cause is a return, it is the node itself that ended in
one. Or it is a statement of the program that ended in a return. -/
inductive Blames (env : Env φ) (n : Node) : EvalFault → Prop
  | innermost {cause line} : InProgress env line → Raised env cause line →
      innermost line = some n →
      (cause = .returnAsValue → ∃ free s, Reached env ⟨free, .expr n, s⟩ ∧
        ∃ v t, expr env (enter env free) n s = (.ok (.returned v), t)) →
      Blames env n cause
  | statement {s v t} : Top env ⟨env.config.maxCallDepth, .statement n, s⟩ →
      Eval.statement env (enter env env.config.maxCallDepth) n s = (.ok (.returned v), t) →
      Blames env n .returnOutsideFunction

variable {cause : EvalFault} {place : Option Place}

theorem mem_of_innermost {line : List (Activation φ)} {n : Node} (hbodies : OwnBodies env)
    (hline : InProgress env line) (hn : innermost line = some n) : n ∈ env.root.preorder := by
  obtain ⟨x, hx, hnode⟩ := List.exists_of_findSome?_eq_some hn
  exact ((hline.reached x hx).within hbodies).node hnode

/-- A program that fails for a cause does so at a node of its tree, and unless it
exhausted a bound the node is to blame. -/
theorem program_blames_node (hbodies : OwnBodies env) (hk : env.root.kind = .sourceFile)
    (h : (program env {}).1 = .error (.fault cause place)) :
    ∃ n ∈ env.root.preorder, place = some (env.place n) ∧
      (cause ≠ .stackExhausted → Blames env n cause) := by
  by_cases hstack : cause = .stackExhausted
  · subst hstack
    rcases program_fails hk h with ⟨x, -, hx⟩ | ⟨x, n, htop, -, hn, he⟩ | ⟨n, s, -, -, he⟩
    · exact absurd rfl hx.ne_stackExhausted
    · cases he
      exact ⟨n, htop.within.node hn, rfl, fun h => absurd rfl h⟩
    · cases he
  · rcases program_blames hk h hstack with ⟨line, n, hline, hraised, hn, rfl⟩ |
      ⟨rfl, n, s, htop, ⟨v, t, hsignal⟩, rfl⟩
    · refine ⟨n, mem_of_innermost hbodies hline hn, rfl, fun _ => ?_⟩
      refine .innermost hline hraised hn fun hcause => ?_
      obtain ⟨x, rest, rfl, -, -, hvalue⟩ := hraised.first
      obtain ⟨m, hwork, hsignal⟩ := hvalue hcause
      obtain ⟨free, work, s⟩ := x
      cases hwork
      cases hn
      exact ⟨free, s, .begun (hline.reached _ List.mem_cons_self) .signal, hsignal⟩
    · exact ⟨n, htop.within, rfl, fun _ => .statement htop hsignal⟩

end Eval

-- ================================================================ reports

/-- The report that a run of a text fails with, unless no report describes its
end. -/
def RunError.diagnostic? (source : String) : RunError → Option Diagnostic
  | .source e => some (e.diagnostic (Lines.split source.toList))
  | .eval (.fault cause place) => some (Failure.report cause place)
  | .eval _ => none

/-- It is what a command shows. -/
theorem runText_of_diagnostic? {r : Surroundings} {source : String} {e : RunError}
    {d : Diagnostic} (json : Bool) (hrun : runSource r source = .error e)
    (hd : e.diagnostic? source = some d) :
    Command.runText r json source = .ok (.ofDiagnostic json d) := by
  unfold Command.runText
  rw [hrun]
  rcases e with e | ⟨cause, place⟩ | cause | _ <;> cases hd <;> rfl

-- ================================================================ the theorem

/-- Every report that a run fails with points at a stretch of the text. And if
the program was being evaluated, it points exactly at the range of the node that
is to blame: the innermost statement, expression or declaration in progress when
the cause was raised, or where the cause is a return, the one that ended in
it. -/
theorem diagnostics_point_into_the_source (r : Surroundings) (source : String) (e : RunError)
    (d : Diagnostic) (hrun : runSource r source = .error e)
    (hd : e.diagnostic? source = some d) :
    (∃ s, d.span = some s ∧ s.PointsInto source.toList) ∧
    ∀ cause place, e = .eval (.fault cause place) → cause ≠ .stackExhausted →
      ∃ tree, Tree.ofSource r.bounds r.file source = .ok tree ∧
        ∃ n ∈ tree.root.preorder,
          d.span = some ((r.env tree.root tree.source).place n).span ∧
          Eval.Blames (r.env tree.root tree.source) n cause := by
  rcases e with e | ⟨cause, place⟩ | abort | _
  · cases hd
    refine ⟨?_, fun cause place he => nomatch he⟩
    have hparse := error_of_runSource hrun
    obtain ⟨s, part, hspan, hpart⟩ := Tree.ofSource_faults hparse (Lines.split source.toList)
    exact ⟨s, hspan, hpart.pointsInto⟩
  · cases hd
    obtain ⟨tree, htree, hfails⟩ := evaluate_of_runSource hrun
    have hwell := Tree.ofSource_wellFormed htree
    have hprogram : (Eval.program (r.env tree.root tree.source) {}).1
        = .error (.fault cause place) := hfails
    obtain ⟨n, hn, rfl, hblames⟩ :=
      Eval.program_blames_node (r.ownBodies _ _) hwell.root.2 hprogram
    refine ⟨⟨_, rfl, ?_⟩, fun cause' place' he hcause => ?_⟩
    · exact Env.span_place_pointsInto _ (Tree.ofSource_placed htree n hn) (hwell.ordered n hn)
    · cases he
      exact ⟨tree, htree, n, hn, rfl, hblames hcause⟩
  · cases hd
  · cases hd

/-- A comparison fails in a conditional in a function, behind a character of two
bytes: the report points at the comparison alone. -/
theorem diagnostics_point_into_the_source_comparison :
    let r : Surroundings :=
      { host := ⟨fun _ => .error .nullByte, fun _ _ => .ok ⟨[], [], 0⟩⟩ }
    let source := "let f = (n) => \x7b\n  if (n) \x7b return \"é\" < 1; \x7d;\n\x7d;\nf(1);"
    ∃ e d, runSource r source = .error e ∧ e.diagnostic? source = some d ∧ d.code = "E408" ∧
      d.span = some ⟨⟨2, 19, 35⟩, ⟨2, 26, 43⟩, none⟩ ∧
      ∃ s, d.span = some s ∧ s.PointsInto source.toList := by
  intro r source
  have hreport : (match runSource r source with
      | .error e => (e.diagnostic? source).any fun d =>
          d.code = "E408" && d.span = some ⟨⟨2, 19, 35⟩, ⟨2, 26, 43⟩, none⟩
      | .ok _ => false) = true := by
    decide +kernel
  rcases hrun : runSource r source with e | s
  · rw [hrun] at hreport
    obtain ⟨d, hd, hmatch⟩ := (Option.any_eq_true _ _).1 hreport
    obtain ⟨hcode, hspan⟩ := Bool.and_eq_true_iff.1 hmatch
    refine ⟨e, d, rfl, hd, of_decide_eq_true hcode, of_decide_eq_true hspan, ?_⟩
    exact (diagnostics_point_into_the_source r source e d hrun hd).1
  · rw [hrun] at hreport
    cases hreport

end SamScript
