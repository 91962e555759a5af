/-
Which failures of a program are reported. A parsed tree has the shapes that the
evaluator asks for, and its nodes lie between characters; so where no interface
is declared and nothing is started, a run of a text fails with a report, but for
two ends (`program_failures_are_reported`): a whole number written with more
digits than the limit, which the language allows and the reader of numbers does
not, and a remainder whose operands have none.
-/
import SamScript.Proofs.Eval.Diagnostics
import SamScript.Proofs.Eval.Malformed
import SamScript.Proofs.Tree.Numbers
import SamScript.Proofs.Tree.Roundtrip
import SamScript.Proofs.Value.Numbers

namespace SamScript

-- ================================================================ conditions

/-- Whether a text declares no interfaces: if it has a tree, there is no
declaration in it. -/
def DeclaresNothing (r : Surroundings) (source : String) : Prop :=
  ∀ tree, Tree.ofSource r.bounds r.file source = .ok tree →
    ∀ n ∈ tree.root.preorder, ¬n.Is .interface_

/-- Whether a run of a text starts no program. -/
def StartsNothing (r : Surroundings) (source : String) : Prop :=
  ∀ tree, Tree.ofSource r.bounds r.file source = .ok tree →
    (evaluate r tree.root tree.source).2.started = []

/-- Whether a node is a whole number with so many digits. -/
def Node.IsWhole (source : List UInt8) (digits : Nat) (n : Node) : Prop :=
  n.Is .number ∧ ∃ (sign : List Char) (ds : Digits), (sign = [] ∨ sign = ['-']) ∧
    n.bytes source = Utf8.encode (sign ++ ds.text) ∧ ds.text.length = digits

-- =================================================================== reports

/-- A run that starts nothing, of a text without interface declarations, fails
with a report if it fails. The exceptions are two: a whole number of more than
4300 digits, and a remainder in the tree, the operands of which came to values
that have none. -/
theorem program_failures_are_reported (r : Surroundings) (source : String)
    (hinterface : DeclaresNothing r source) (hstarts : StartsNothing r source) :
    ∀ e, runSource r source = .error e →
      (∃ d, e.diagnostic? source = some d) ∨
      (∃ tree digits, Tree.ofSource r.bounds r.file source = .ok tree ∧
        e = .eval (.abort (.number (.tooLong digits))) ∧ 4300 < digits ∧
        ∃ n ∈ tree.root.preorder, n.IsWhole tree.source digits) ∨
      (∃ tree, Tree.ofSource r.bounds r.file source = .ok tree ∧
        e = .eval (.abort .noRemainder) ∧
        ∃ n ∈ tree.root.preorder, Eval.LacksRemainder (r.env tree.root tree.source) n) := by
  intro e he
  cases e with
  | source e => exact .inl ⟨_, rfl⟩
  | eval e =>
    obtain ⟨tree, htree, hrun⟩ := evaluate_of_runSource he
    have hwell := Tree.ofSource_wellFormed htree
    have hexits := Eval.exits_program (r.ownBodies tree.root tree.source) (hinterface tree htree) {}
    obtain ⟨hexit, hbound⟩ := hexits.2 (hstarts tree htree) e hrun
    cases hexit with
    | fault | refused => exact .inl ⟨_, rfl⟩
    | exhausted => exact absurd rfl hbound
    | text hn hflaw =>
      obtain ⟨text, htext⟩ := hwell.readable _ hn
      cases hflaw.symm.trans htext
    | number hn hk htext hfault =>
      rename_i n text fault
      obtain ⟨sign, k, hsign, hbytes⟩ := Tree.number_spelled htree hn hk
      have hspelled : text.toList = sign ++ k.text := by
        have hpure := htext.symm.trans (Env.text_of_bytes hbytes)
        rw [Run.pure_injective hpure, String.toList_ofList]
      rw [hspelled] at hfault
      obtain ⟨hwhole, hlong, rfl⟩ := Literal.number?_spelled hsign k hfault
      refine .inr (.inl ⟨tree, _, htree, rfl, hlong, n, hn, hk, sign, k.whole, hsign, ?_, rfl⟩)
      rw [hbytes, hwhole]
    | bare hn hk hnamed =>
      have hshape := hwell.shaped _ hn hk.1
      rw [hk.2] at hshape
      obtain ⟨inner, rest, hinner, -⟩ := hshape
      cases hnamed.symm.trans hinner
    | remainder hn hlacks => exact .inr (.inr ⟨tree, htree, rfl, _, hn, hlacks⟩)

/-- An attribute of a number, in a function that is called. -/
theorem program_failures_are_reported_attribute :
    let r : Surroundings := { host := ⟨fun _ => .error .nullByte, fun _ _ => .error .badVariable⟩ }
    let source := "let f = (x) => \x7b return x.y; \x7d; f(-12);"
    DeclaresNothing r source ∧ StartsNothing r source ∧
      ∃ e d, runSource r source = .error e ∧ e.diagnostic? source = some d ∧ d.code = "E406" := by
  intro r source
  have hrun : (Tree.ofSource {} none source).toOption.any (fun tree =>
      (tree.root.preorder.all fun n => !(n.isNamed && n.kind = .interface_)) &&
      (evaluate r tree.root tree.source).2.started.isEmpty &&
      (failure? (evaluate r tree.root tree.source).1).any fun e =>
        ((RunError.eval e).diagnostic? source).any (·.code = "E406")) = true := by
    decide +kernel
  rcases htree : Tree.ofSource {} none source with e | tree
  · rw [htree] at hrun
    cases hrun
  · rw [htree] at hrun
    simp only [Except.toOption, Option.any_some, Bool.and_eq_true, List.all_eq_true] at hrun
    obtain ⟨⟨hnone, hempty⟩, hfails⟩ := hrun
    have hdeclares : DeclaresNothing r source := by
      intro tree' htree' n hn hk
      cases htree.symm.trans htree'
      simpa [hk.1, hk.2] using hnone n hn
    have hstarts : StartsNothing r source := by
      intro tree' htree'
      cases htree.symm.trans htree'
      exact List.isEmpty_iff.1 hempty
    obtain ⟨e, he, hcode⟩ := (Option.any_eq_true _ _).1 hfails
    have hsource : runSource r source = .error (.eval e) := by
      unfold runSource
      rw [show Tree.ofSource r.bounds r.file source = .ok tree from htree]
      dsimp only
      rw [show evaluate r tree.root tree.source = (.error e, _) from
        Prod.ext (failure?_eq_some he) rfl]
    refine ⟨hdeclares, hstarts, .eval e, ?_⟩
    rcases program_failures_are_reported r source hdeclares hstarts _ hsource with
      ⟨d, hd⟩ | ⟨_, _, _, h, _⟩ | ⟨_, _, h, _⟩
    · rw [hd] at hcode
      exact ⟨d, hsource, hd, of_decide_eq_true hcode⟩
    · cases h
      cases hcode
    · cases h
      cases hcode

-- ============================================================== long numbers

open Abstract in
/-- The tree of a statement that is only a whole number. -/
theorem ofSource_number (file : Option String) (ds : Digits) :
    ∃ tree statement literal number mark,
      Tree.ofSource {} file (String.ofList (ds.text ++ [' ', ';'])) = .ok tree ∧
      tree.root.Is .sourceFile ∧ tree.root.children = [statement] ∧
      statement.Is .expressionStatement ∧ statement.children = [literal, mark] ∧
      literal.Is .literal ∧ literal.children = [number] ∧
      number.Is .number ∧ number.bytes tree.source = Utf8.encode ds.text ∧
      number.children = [] ∧ mark.isNamed = false ∧ mark.children = [] := by
  let k : Number := ⟨ds, none, none⟩
  let p : Program := ⟨[], [.expression (.number false k)]⟩
  have hk : k.text = ds.text := List.append_nil ds.text
  have htext : p.text = String.ofList (ds.text ++ [' ', ';']) := by
    rw [← hk]
    rfl
  obtain ⟨list, htokens, hspell⟩ := Lexeme.tokenize_join file p.lexemes
  obtain ⟨tree, htree, hsketch⟩ : ∃ tree, Tree.ofSource {} file p.text = .ok tree ∧
      tree.root.sketch tree.source = p.sketch :=
    ofSource_spelled p htokens hspell rfl
  obtain ⟨hfile, hchildren⟩ := of_sketch_branch hsketch
  obtain ⟨statement, hroot', hone⟩ := List.map_eq_singleton_iff.1 hchildren
  obtain ⟨hstatement, htwo⟩ := of_sketch_branch hone
  obtain ⟨literal, rest, hstatement', hfirst, hrest⟩ := List.map_eq_cons_iff.1 htwo
  obtain ⟨mark, rfl, hsecond⟩ := List.map_eq_singleton_iff.1 hrest
  obtain ⟨hliteral, hinner⟩ := of_sketch_branch hfirst
  obtain ⟨number, hliteral', hword⟩ := List.map_eq_singleton_iff.1 hinner
  obtain ⟨hnumber, hbytes, hleaf⟩ := of_sketch_word rfl hword
  obtain ⟨hmark, hbare⟩ := of_sketch_mark hsecond
  rw [htext] at htree
  refine ⟨_, statement, literal, number, mark, htree, hfile, hroot', hstatement, hstatement',
    hliteral, hliteral', hnumber, ?_, hleaf, hmark, hbare⟩
  rw [hbytes]
  exact congrArg Utf8.encode hk

namespace Eval

variable {φ : Type} [Callable φ] [DecidableEq φ] {env : Env φ} {call : Caller φ}
  {literal number : Node}

omit [Callable φ] [DecidableEq φ] in
/-- A literal over a whole number of too many digits. -/
theorem literal_longNumber {ds : Digits} (hnamed : literal.named = [number])
    (hnumber : number.Is .number) (hbytes : number.bytes env.source = Utf8.encode ds.text)
    (hlong : Decimal.digitLimit < ds.text.length) :
    Eval.literal env literal = Run.fail (.abort (.number (.tooLong ds.text.length))) := by
  have hread : Literal.number? (String.ofList ds.text).toList =
      (.error (.tooLong ds.text.length) : Except Decimal.Fault (Option (Value φ))) := by
    rw [String.toList_ofList]
    exact Literal.number?_tooLong ds hlong
  unfold Eval.literal
  rw [hnamed]
  dsimp only
  rw [hnumber.2]
  dsimp only
  rw [Env.text_of_bytes hbytes, Run.pure_bind, Eval.number, hread]

/-- A program of one statement, which is an expression. -/
theorem program_expression {statement inner : Node} {rest : List Node}
    (hroot : env.root.kind = .sourceFile) (hone : env.root.named = [statement])
    (hstatement : statement.kind = .expressionStatement) (hinner : statement.named = inner :: rest)
    (hbounds : env.bounds = {}) {e : Failure} {s t : RunState φ} (he : e ≠ .exhausted)
    (hplace : ∀ place, e.locate place = e)
    (hrun : expr env (enter env env.config.maxCallDepth) inner s = (.error e, t)) :
    program env s = (.error e, t) := by
  have hnone : statement.kind ≠ .interfaces := by
    rw [hstatement]
    decide
  have hadmitted : Run.within env.bounds.operands (fun _ => statement.operandDepth) s =
      (.ok (), s) := by
    rw [hbounds]
    rfl
  have hfails : Eval.statement env (enter env env.config.maxCallDepth) statement s =
      (.error e, t) := by
    rw [statement_expression hstatement hinner]
    unfold Run.located
    rw [Run.bind_apply, hadmitted]
    dsimp only
    rw [hrun]
    dsimp only
    rw [hplace]
  rw [program_eq hroot, declarations, mainStatements, hone]
  dsimp only
  rw [if_neg hnone, if_neg hnone, interfaces, Run.pure_bind, topLevel, Run.bind_apply]
  unfold blamed
  rw [hfails]
  cases e with
  | exhausted => exact absurd rfl he
  | fault cause place => rfl
  | abort cause => rfl

end Eval

/-- A statement that is only a number of too many digits is read, and its run
ends without a report. -/
theorem evaluate_longNumber (r : Surroundings) (hbounds : r.bounds = {}) (ds : Digits)
    (hlong : Decimal.digitLimit < ds.text.length) :
    ∃ tree, Tree.ofSource r.bounds r.file (String.ofList (ds.text ++ [' ', ';'])) = .ok tree ∧
      (∀ n ∈ tree.root.preorder, ¬n.Is .interface_) ∧
      evaluate r tree.root tree.source =
        (.error (.abort (.number (.tooLong ds.text.length))), {}) := by
  obtain ⟨tree, statement, literal, number, mark, htree, hfile, hroot, hstatement, hstatement',
    hliteral, hliteral', hnumber, hbytes, hleaf, hmark, hbare⟩ := ofSource_number r.file ds
  refine ⟨tree, hbounds ▸ htree, fun n hn hk => ?_, ?_⟩
  · have hnodes : tree.root.preorder = [tree.root, statement, literal, number, mark] := by
      simp [Node.preorder_eq, Node.preorders, hroot, hstatement', hliteral', hleaf, hbare]
    rw [hnodes] at hn
    simp only [List.mem_cons, List.not_mem_nil, or_false] at hn
    obtain ⟨hnamed, hkind⟩ := hk
    rcases hn with rfl | rfl | rfl | rfl | rfl
    · cases hkind.symm.trans hfile.2
    · cases hkind.symm.trans hstatement.2
    · cases hkind.symm.trans hliteral.2
    · cases hkind.symm.trans hnumber.2
    · cases hnamed.symm.trans hmark
  · have hone : tree.root.named = [statement] := by
      rw [Node.named, hroot, List.filter_cons_of_pos hstatement.1, List.filter_nil]
    have hinner : statement.named = [literal] := by
      rw [Node.named, hstatement', List.filter_cons_of_pos hliteral.1,
        List.filter_cons_of_neg (by simp [hmark]), List.filter_nil]
    have hnamed : literal.named = [number] := by
      rw [Node.named, hliteral', List.filter_cons_of_pos hnumber.1, List.filter_nil]
    refine Eval.program_expression hfile.2 hone hstatement.2 hinner hbounds nofun (fun _ => rfl) ?_
    rw [Eval.expr_literal hliteral.2, Eval.literal_longNumber hnamed hnumber hbytes hlong]
    rfl

/-- So a run of it meets all conditions, and fails without a report. -/
theorem longNumber_not_reported (r : Surroundings) (hbounds : r.bounds = {}) (ds : Digits)
    (hlong : Decimal.digitLimit < ds.text.length) :
    DeclaresNothing r (String.ofList (ds.text ++ [' ', ';'])) ∧
      StartsNothing r (String.ofList (ds.text ++ [' ', ';'])) ∧
      runSource r (String.ofList (ds.text ++ [' ', ';'])) =
        .error (.eval (.abort (.number (.tooLong ds.text.length)))) := by
  obtain ⟨tree, htree, hnone, hrun⟩ := evaluate_longNumber r hbounds ds hlong
  refine ⟨fun tree' htree' => ?_, fun tree' htree' => ?_, ?_⟩
  · cases htree.symm.trans htree'
    exact hnone
  · cases htree.symm.trans htree'
    rw [hrun]
  · unfold runSource
    rw [htree]
    dsimp only
    rw [hrun]

/-- A number that is written with one digit many times. -/
def Digits.ones (n : Nat) : Digits where
  text := List.replicate (n + 1) '1'
  ne_nil := List.cons_ne_nil _ _
  digit _ hc := List.eq_of_mem_replicate hc ▸ by decide

theorem Digits.length_ones (n : Nat) : (ones n).text.length = n + 1 :=
  List.length_replicate

/-- A whole number of one digit more than the limit. Its value does not fit in
64 bits, which of a shorter one would be reported. -/
theorem long_number_is_not_reported :
    let r : Surroundings := { host := ⟨fun _ => .error .nullByte, fun _ _ => .error .badVariable⟩ }
    let source := String.ofList ((Digits.ones 4300).text ++ [' ', ';'])
    DeclaresNothing r source ∧ StartsNothing r source ∧
      ∃ e, runSource r source = .error e ∧ e.diagnostic? source = none := by
  intro r source
  have hlong : Decimal.digitLimit < (Digits.ones 4300).text.length := by
    rw [Digits.length_ones]
    decide
  obtain ⟨hdeclares, hstarts, hrun⟩ := longNumber_not_reported r rfl (.ones 4300) hlong
  exact ⟨hdeclares, hstarts, _, hrun, rfl⟩

end SamScript
