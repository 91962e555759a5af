/-
Parsing undoes printing. The text of an abstract program is parsed, and the
tree has the sketch of the program (`parsing_undoes_printing`): every
grouping of the operators, every lambda, every sign and every assignment is
seen as what it was printed for. The induction follows the syntax, one case
for each way to build it (`Expression.reads`).
-/
import SamScript.Proofs.Tree.Readback
import SamScript.Tree.OfSource

namespace SamScript

open Abstract SamScript.Parser

variable {a : List Char} {stop : Span}

-- =============================================================== induction

namespace Abstract

mutual

/-- Every printed expression is read back. -/
theorem Expression.reads : (e : Expression) → e.Reads a stop
  | .number negative n => .of_operand (operand_number negative n)
  | .string s => .of_operand (operand_string s)
  | .name x => .of_operand (operand_name x)
  | .array items => .array (Expression.reads_each items)
  | .lambda _ body => .lambda (Statement.reads_each body)
  | .conditional c => .conditional c.reads
  | .call callee arguments => .call callee.reads (Expression.reads_each arguments)
  | .access parent x => .access parent.reads x
  | .binary _ left right => .binary left.reads right.reads

theorem Conditional.reads : (c : Conditional) → c.Reads a stop
  | .mk condition consequence alternative =>
    .mk condition.reads (Statement.reads_each consequence) alternative.reads

theorem Alternative.reads : (x : Alternative) → x.Reads a stop
  | .none => .none
  | .block body => .block (Statement.reads_each body)
  | .elseIf c => .elseIf c.reads

theorem Declarator.reads : (d : Declarator) → d.Reads a stop
  | .bare x => .bare x
  | .valued x value => .valued x value.reads

theorem Statement.reads : (s : Statement) → s.Reads a stop
  | .declaration first others => .declaration first.reads (Declarator.reads_each others)
  | .assignment x value => .assignment x value.reads
  | .return_ => .return_
  | .returnValue value => .returnValue value.reads
  | .expression e => .expression e.reads

theorem Expression.reads_each : (es : List Expression) → ∀ e ∈ es, e.Reads a stop
  | [] => nofun
  | e :: es => List.forall_mem_cons.2 ⟨e.reads, Expression.reads_each es⟩

theorem Declarator.reads_each : (ds : List Declarator) → ∀ d ∈ ds, d.Reads a stop
  | [] => nofun
  | d :: ds => List.forall_mem_cons.2 ⟨d.reads, Declarator.reads_each ds⟩

theorem Statement.reads_each : (ss : List Statement) → ∀ s ∈ ss, s.Reads a stop
  | [] => nofun
  | s :: ss => List.forall_mem_cons.2 ⟨s.reads, Statement.reads_each ss⟩

end

end Abstract

-- ================================================================ programs

/-- Statements up to the end of the program. -/
theorem statements_printed (ss : List Statement) {ts : List Token}
    (hts : Printed a (Statement.lexemesAll ss) ts) :
    ∃ nodes, statements stop ts = .ok nodes ∧ Draws a nodes (Statement.sketches ss) := by
  induction ss generalizing ts with
  | nil =>
    cases Printed.nil hts
    exact ⟨[], by rw [statements], rfl⟩
  | cons s ss ih =>
    obtain ⟨us, vs, rfl, hus, hvs⟩ := Printed.append hts
    have hread : Finds _ (statement stop (us ++ vs)) vs := s.reads us vs hus
    obtain ⟨t, us, rfl, -⟩ := hus.starts
    rw [List.cons_append] at hread ⊢
    obtain ⟨n, hlt, hn, hfirst⟩ := hread
    obtain ⟨nodes, hmore, hnodes⟩ := ih hvs
    refine ⟨n :: nodes, ?_, hn.cons hnodes⟩
    rw [statements, hfirst]
    dsimp only [bind, Except.bind]
    rw [hmore]
    rfl

/-- An interface declaration. -/
theorem interfaceDecl_printed (i : Interface) {ts : List Token} (hts : Printed a i.lexemes ts)
    (rest : List Token) : ∃ t us, ts = t :: us ∧ t.kind = .interface_ ∧
      Finds (Draws a [·] [i.sketch]) (interfaceDecl stop t (us ++ rest)) rest := by
  obtain ⟨t, ts, rfl, ht, hts⟩ := Printed.cons hts
  obtain ⟨path, ts, rfl, hpath, hts⟩ := hts.cons
  obtain ⟨load, ts, rfl, hload, hts⟩ := hts.cons
  obtain ⟨x, ts, rfl, hx, hts⟩ := hts.cons
  obtain ⟨semicolon, rfl, hsemicolon⟩ := hts.one
  have hstring : path.kind = .string := hpath.kind
  have hname : x.kind = .identifier := hx.kind
  refine ⟨t, _, rfl, ht.mark_kind, ?_⟩
  show Finds _ (interfaceDecl stop t (path :: load :: x :: semicolon :: rest)) rest
  have hlen : rest.length < (path :: load :: x :: semicolon :: rest).length + 1 := by
    simp only [List.length_cons]
    omega
  refine ⟨_, hlen, .branch rfl (ht.mark.cons ((hpath.string.inField .path).cons
    (hload.mark.cons ((hx.name.inField .module_).cons hsemicolon.mark)))), ?_⟩
  rw [interfaceDecl, expect_eq hstring]
  dsimp only [bind, Except.bind]
  rw [expect_eq hload.mark_kind]
  dsimp only
  rw [expect_eq hname]
  dsimp only
  rw [finish_semicolon hsemicolon.mark_kind]
  rfl

/-- The interface declarations that a program begins with. -/
theorem interfaces_printed (is : List Interface) {ts : List Token}
    (hts : Printed a (is.map Interface.lexemes).flatten ts) {rest : List Token}
    (hrest : Heads (· ≠ .interface_) rest) :
    ∃ nodes, interfaces stop (ts ++ rest) = .ok (nodes, rest) ∧
      Draws a nodes (is.map Interface.sketch) := by
  induction is generalizing ts with
  | nil =>
    cases Printed.nil hts
    refine ⟨[], ?_, rfl⟩
    rw [List.nil_append]
    cases rest with
    | nil => rw [interfaces]
    | cons t rest => rw [interfaces, if_neg (hrest t rfl)]
  | cons i is ih =>
    rw [List.map_cons, List.flatten_cons] at hts
    obtain ⟨us, vs, rfl, hus, hvs⟩ := hts.append
    obtain ⟨t, us, rfl, ht, n, hlt, hn, hfirst⟩ := interfaceDecl_printed i hus (vs ++ rest)
    obtain ⟨nodes, hmore, hnodes⟩ := ih hvs
    refine ⟨n :: nodes, ?_, hn.cons hnodes⟩
    rw [List.append_assoc, List.cons_append, interfaces, if_pos ht, hfirst]
    dsimp only [bind, Except.bind]
    rw [hmore]
    rfl

/-- A printed program is read back. -/
theorem program_printed (p : Program) {list : TokenList} (hts : Printed a p.lexemes list.tokens) :
    ∃ root, program list = .ok root ∧ root.sketch (Utf8.encode a) = p.sketch := by
  obtain ⟨us, vs, hsplit, hus, hvs⟩ := Printed.append hts
  have hheads : Heads (· ≠ .interface_) vs := by
    cases hss : p.statements with
    | nil =>
      rw [hss] at hvs
      cases Printed.nil hvs
      exact nofun
    | cons s ss =>
      rw [hss] at hvs
      obtain ⟨xs, ys, rfl, hxs, -⟩ := Printed.append hvs
      obtain ⟨t, xs, rfl, ht⟩ := hxs.starts
      refine .cons fun he => ?_
      rw [he] at ht
      exact absurd ht (by decide)
  obtain ⟨declared, hinterfaces, hdeclared⟩ : ∃ declared,
      interfaces list.stop (us ++ vs) = .ok (declared, vs) ∧
        Draws a declared (p.interfaces.map Interface.sketch) :=
    interfaces_printed p.interfaces hus hheads
  obtain ⟨inner, hstatements, hinner⟩ : ∃ inner, statements list.stop vs = .ok inner ∧
      Draws a inner (Statement.sketches p.statements) :=
    statements_printed p.statements hvs
  refine ⟨rootNode list.stop declared inner, ?_, ?_⟩
  · rw [program, hsplit, hinterfaces]
    dsimp only [bind, Except.bind]
    rw [hstatements]
    cases declared <;> rfl
  · rw [Node.sketch_eq]
    exact congrArg (Sketch.branch .sourceFile) (hdeclared.gathered.append hinner)

/-- A text with the tokens of a program has its tree, once its brackets are known not to
nest too deep. -/
theorem ofSource_spelled (p : Program) {bounds : Bounds} {file : Option String} {source : String}
    {list : TokenList} (htokens : tokenize file source = .ok list)
    (hspell : Lexeme.Spell p.lexemes list.tokens)
    (hwithin : programWithin bounds.brackets list = program list) :
    ∃ tree, Tree.ofSource bounds file source = .ok tree ∧
      tree.root.sketch tree.source = p.sketch := by
  obtain ⟨root, hroot, hsketch⟩ := program_printed p ⟨hspell, (tokenize_places htokens).2.1⟩
  refine ⟨⟨root, Utf8.encode source.toList⟩, ?_, hsketch⟩
  unfold Tree.ofSource
  rw [htokens]
  dsimp only
  rw [hwithin, hroot]

/-- The tree of a printed program: it is found, or the brackets of the
program nest deeper than they may. -/
theorem parsing_undoes_printing (p : Program) (bounds : Bounds) (file : Option String) :
    ∃ tree : Tree, tree.root.sketch tree.source = p.sketch ∧
      (Tree.ofSource bounds file p.text = .ok tree ∨
        ∃ list limit span, tokenize file p.text = .ok list ∧ bounds.brackets = some limit ∧
          limit < (deepest 0 (0, none) list.tokens).1 ∧
          Tree.ofSource bounds file p.text = .error (.parse ⟨.tooDeep, span⟩)) := by
  obtain ⟨list, hlist, hspell⟩ := Lexeme.tokenize_join file p.lexemes
  have htokens : tokenize file p.text = .ok list := hlist
  have hprinted : Printed p.text.toList p.lexemes list.tokens :=
    ⟨hspell, (tokenize_places htokens).2.1⟩
  obtain ⟨root, hroot, hsketch⟩ := program_printed p hprinted
  refine ⟨⟨root, Utf8.encode p.text.toList⟩, hsketch, ?_⟩
  have hwithin : programWithin bounds.brackets list = .ok root ∨
      ∃ limit span, bounds.brackets = some limit ∧ limit < (deepest 0 (0, none) list.tokens).1 ∧
        programWithin bounds.brackets list = .error ⟨.tooDeep, span⟩ := by
    unfold programWithin
    split
    · rename_i limit depth t hlimit hdeep
      split
      · rename_i hdepth
        exact .inr ⟨limit, t.span, hlimit, by rwa [hdeep], rfl⟩
      · exact .inl hroot
    · exact .inl hroot
  unfold Tree.ofSource
  rw [htokens]
  dsimp only
  rcases hwithin with hok | ⟨limit, span, hlimit, hdepth, htoo⟩
  · exact .inl (by rw [hok])
  · exact .inr ⟨list, limit, span, rfl, hlimit, hdepth, by rw [htoo]⟩

/-- Parentheses come back where a right operand binds no more tightly, and a
sign is glued to its number. -/
example :
    let a : Name := ⟨'a', [], rfl, nofun, rfl⟩
    let b : Name := ⟨'b', [], rfl, nofun, rfl⟩
    let one : Number := ⟨⟨['1'], nofun, List.forall_mem_singleton.2 rfl⟩, none, none⟩
    Program.text ⟨[], [.expression (.binary .subtract (.name a)
      (.binary .subtract (.call (.name b) []) (.number true one)))]⟩ = "a - ( b ( ) - -1 ) ;" := by
  decide +kernel

end SamScript
