/-
Trees that no parser built. The evaluator takes any tree over any bytes, of
whatever shape, and says what is wrong with one that it cannot make sense of.
As long as the nodes begin and end between characters, hold no numbers and
declare no interfaces, a run from any state that starts nothing ends in a
report if it fails, with two exceptions: an expression statement without an
expression, and a remainder of operands that have none, which a tree without
numbers can still get from the values in scope.
-/
import SamScript.Proofs.Eval.Exits
import SamScript.Proofs.Text.Utf8

namespace SamScript

-- ============================================================== placement

/-- Whether the stretch of a node begins and ends between two characters of a
text, or at an end of it. -/
def Node.Bounded (text : List Char) (n : Node) : Prop :=
  Utf8.Boundary text n.extent.startByte ∧ Utf8.Boundary text n.extent.endByte

/-- What such a node covers is a text. -/
theorem Node.Bounded.decode? {text : List Char} {n : Node} (h : n.Bounded text) :
    ∃ part, Utf8.decode? (n.bytes (Utf8.encode text)) = .ok part :=
  h.1.decode? h.2

-- ================================================================ reports

/-- Whether a failure is reported: a fault of the program itself, or a program
that could not be started for it. -/
def Failure.IsReport : Failure → Prop
  | .fault cause _ =>
    cause.isForeign = false ∨ ∃ command reason, cause = .startFailed command reason
  | .abort _ | .exhausted => False

/-- The failure that a run ended in, if it did. -/
def failure? : Except Failure Unit → Option Failure
  | .ok () => none
  | .error e => some e

theorem failure?_eq_some {outcome : Except Failure Unit} {e : Failure}
    (h : failure? outcome = some e) : outcome = .error e := by
  cases outcome with
  | ok => cases h
  | error e' =>
    cases h
    rfl

variable {r : Surroundings} {root : Node} {text : List Char}

/-- However misshapen a tree is, its run is reported if it fails. The nodes lie
between characters of a text; there is no number among them and no interface
declaration; the state may be any, and nothing is started. Then whatever a run
fails with is a report, unless a statement of the tree has no expression, or the
operands of a remainder in it came to values that have none. -/
theorem malformed_tree_is_reported (hbounded : root.All (Node.Bounded text))
    (hnumber : ∀ n ∈ root.preorder, ¬n.Is .number)
    (hinterface : ∀ n ∈ root.preorder, ¬n.Is .interface_) {s : RunState}
    (hstarted : (Eval.program (r.env root (Utf8.encode text)) s).2.started = s.started) :
    ∀ e, (Eval.program (r.env root (Utf8.encode text)) s).1 = .error e →
      e.IsReport ∨
      (e = .abort .missingExpression ∧
        ∃ n ∈ root.preorder, n.Is .expressionStatement ∧ n.named = []) ∨
      (e = .abort .noRemainder ∧
        ∃ n ∈ root.preorder, Eval.LacksRemainder (r.env root (Utf8.encode text)) n) := by
  intro e he
  have hexits := Eval.exits_program (r.ownBodies root (Utf8.encode text)) hinterface s
  obtain ⟨hexit, hbound⟩ := hexits.2 hstarted e he
  cases hexit with
  | fault hcause => exact .inl (.inl hcause)
  | refused => exact .inl (.inr ⟨_, _, rfl⟩)
  | exhausted => exact absurd rfl hbound
  | text hn hflaw =>
    obtain ⟨part, hpart⟩ := (hbounded _ hn).decode?
    cases hflaw.symm.trans hpart
  | number hn hk => exact absurd hk (hnumber _ hn)
  | bare hn hk hnamed => exact .inr (.inl ⟨rfl, _, hn, hk, hnamed⟩)
  | remainder hn hlacks => exact .inr (.inr ⟨rfl, _, hn, hlacks⟩)

/-- A program over one letter of two bytes. Its only statement is a call whose
callee is a bare comma. -/
theorem malformed_tree_is_reported_comma :
    let x : Extent := ⟨0, 2, ⟨0, 0⟩, ⟨0, 1⟩⟩
    let root : Node := .mk .sourceFile true none x [.mk .expressionStatement true none x
      [.mk .callExpression true none x [.mk (.other ",") false (some .function) x []]]]
    let r : Surroundings := { host := ⟨fun _ => .error .nullByte, fun _ _ => .error .badVariable⟩ }
    let run := Eval.program (r.env root (Utf8.encode ['é'])) {}
    root.All (Node.Bounded ['é']) ∧ (∀ n ∈ root.preorder, ¬n.Is .number) ∧
      (∀ n ∈ root.preorder, ¬n.Is .interface_) ∧ run.2.started = [] ∧
      ∃ e, run.1 = .error e ∧ e.IsReport := by
  intro x root r run
  have hbounded : root.All (Node.Bounded ['é']) := by
    have hextent : ∀ n ∈ root.preorder, n.extent = x := by decide
    intro n hn
    rw [Node.Bounded, hextent n hn]
    exact ⟨⟨[], ['é'], rfl, rfl⟩, ⟨['é'], [], rfl, rfl⟩⟩
  have hnumber : ∀ n ∈ root.preorder, ¬n.Is .number := by
    unfold Node.Is
    decide
  have hinterface : ∀ n ∈ root.preorder, ¬n.Is .interface_ := by
    unfold Node.Is
    decide
  have hstarted : run.2.started = [] := List.isEmpty_iff.1 (by decide +kernel)
  obtain ⟨e, he, hbare, hremainder⟩ : ∃ e, failure? run.1 = some e ∧
      e ≠ .abort .missingExpression ∧ e ≠ .abort .noRemainder :=
    ⟨.fault (.shape "expression" ",") (some ((r.env root (Utf8.encode ['é'])).place root)),
      by decide +kernel, by decide, by decide⟩
  have hrun := failure?_eq_some he
  refine ⟨hbounded, hnumber, hinterface, hstarted, e, hrun, ?_⟩
  rcases malformed_tree_is_reported hbounded hnumber hinterface hstarted e hrun with h | h | h
  · exact h
  · exact absurd h.1 hbare
  · exact absurd h.1 hremainder

/-- A program whose only statement has no expression. A literal without a value
is reported; here the evaluator takes the first child without a look. -/
theorem bare_statement_is_not_reported :
    let x : Extent := ⟨0, 1, ⟨0, 0⟩, ⟨0, 1⟩⟩
    let root : Node := .mk .sourceFile true none x [.mk .expressionStatement true none x []]
    let r : Surroundings := { host := ⟨fun _ => .error .nullByte, fun _ _ => .error .badVariable⟩ }
    let run := Eval.program (r.env root (Utf8.encode ['x'])) {}
    root.All (Node.Bounded ['x']) ∧ (∀ n ∈ root.preorder, ¬n.Is .number) ∧
      (∀ n ∈ root.preorder, ¬n.Is .interface_) ∧ run.2.started = [] ∧
      ∃ e, run.1 = .error e ∧ ¬e.IsReport := by
  intro x root r run
  have hbounded : root.All (Node.Bounded ['x']) := by
    have hextent : ∀ n ∈ root.preorder, n.extent = x := by decide
    intro n hn
    rw [Node.Bounded, hextent n hn]
    exact ⟨⟨[], ['x'], rfl, rfl⟩, ⟨['x'], [], rfl, rfl⟩⟩
  have hstarted : run.2.started = [] := List.isEmpty_iff.1 (by decide +kernel)
  have hfailure : failure? run.1 = some (.abort .missingExpression) := by decide +kernel
  have hnone : ∀ n ∈ root.preorder, ¬n.Is .number ∧ ¬n.Is .interface_ := by
    unfold Node.Is
    decide
  exact ⟨hbounded, fun n hn => (hnone n hn).1, fun n hn => (hnone n hn).2, hstarted, _,
    failure?_eq_some hfailure, id⟩

end SamScript
