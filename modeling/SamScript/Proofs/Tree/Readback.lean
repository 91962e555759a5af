/-
How the other productions read what is printed: lists, blocks, lambdas, if
expressions, declarations and statements. Each reads its tokens and no more,
given that its parts do.
-/
import SamScript.Proofs.Tree.Climb

namespace SamScript

open Abstract SamScript.Parser

variable {a : List Char} {stop : Span}

-- ==================================================================== lists

section

variable {field : Option Field} {close : TokenKind} {expected : Expected} {t : Token}
  {ts us rest : List Token} {s : Sketch} {ss : List Sketch}

theorem listed_close (ht : t.kind = close) : listed stop field close expected (t :: rest) =
    .ok ⟨[.anonymous t], rest, Nat.lt_succ_self _⟩ := by
  rw [listed, if_pos ht]

theorem listed_item (ht : t.kind ≠ close) : listed stop field close expected (t :: rest) =
    items stop field close expected (t :: rest) := by
  rw [listed, if_neg ht]

/-- Tokens of some items begin as those of the first of them do. -/
theorem listed_items {e : Expression} {lists : List (List Lexeme)} (hclose : close ∉ starters)
    (hts : Printed a (commas (e.lexemes :: lists)) ts) :
    listed stop field close expected (ts ++ rest) =
      items stop field close expected (ts ++ rest) := by
  obtain ⟨ms, hms⟩ := commas_cons e.lexemes lists
  rw [hms] at hts
  obtain ⟨us, vs, rfl, hus, -⟩ := hts.append
  obtain ⟨t, us, rfl, ht⟩ := hus.heads
  exact listed_item fun he => hclose (he ▸ ht)

/-- Items with commas between them, and what closes the list. -/
theorem finds_items (hclose : close = .rparen ∨ close = .rbracket) {e : Expression}
    {es : List Expression} (he : e.Reads a stop) (hes : ∀ e ∈ es, e.Reads a stop) {c : Token}
    (hts : Printed a (commas (e.lexemes :: Expression.lexemesEach es)) ts) (hc : c.kind = close)
    (hdraws : Draws a [.anonymous c] [s]) :
    Finds (Draws a · (Sketch.commas ((e.sketch :: Expression.sketches es).map
        (Sketch.inOptional field)) ++ [s]))
      (items stop field close expected (ts ++ c :: rest)) rest := by
  have hclosers : close ∈ closers ∧ close ≠ .comma ∧ close ∉ starters := by
    rcases hclose with rfl | rfl <;> decide
  obtain ⟨hcloser, hcomma, hstarters⟩ := hclosers
  -- after a comma another item follows, never what closes the list
  induction es generalizing e ts with
  | nil =>
    rw [Expression.lexemesEach, commas_one] at hts
    obtain ⟨n, hlt, hn, hitem⟩ := he.whole hts (hc ▸ hcloser) rest
    refine ⟨[n.inOptional field, .anonymous c], length_lt_of_append ts c rest,
      (hn.inOptional field).cons hdraws, ?_⟩
    rw [items, hitem]
    dsimp only [bind, Except.bind]
    rw [if_neg (hc ▸ hcomma), if_pos hc]
    rfl
  | cons e' es ih =>
    obtain ⟨he', hes⟩ := List.forall_mem_cons.1 hes
    rw [Expression.lexemesEach, commas_cons_cons] at hts
    obtain ⟨us, vs, rfl, hus, hvs⟩ := hts.append
    obtain ⟨k, vs, rfl, hk, hvs⟩ := hvs.cons
    have hkind := hk.mark_kind
    obtain ⟨n, hlt, hn, hitem⟩ := he.whole hus (by rw [hkind]; decide) (vs ++ c :: rest)
    obtain ⟨nodes, hlt', hnodes, hmore⟩ := ih he' hes hvs
    rw [List.append_assoc, List.cons_append]
    refine ⟨n.inOptional field :: .anonymous k :: nodes,
      Nat.lt_trans hlt' (length_lt_of_append us k _),
      (hn.inOptional field).cons (hk.mark.cons hnodes), ?_⟩
    rw [items, hitem]
    dsimp only [bind, Except.bind]
    rw [if_pos hkind, listed_items hstarters hvs, hmore]
    rfl

/-- A list, which may be empty, and what closes it. -/
theorem finds_listed (field : Option Field) (expected : Expected)
    (hclose : close = .rparen ∨ close = .rbracket) {es : List Expression}
    (hes : ∀ e ∈ es, e.Reads a stop) {ℓ : Lexeme} (hℓ : ℓ.kind = close)
    (hts : Printed a (commas (Expression.lexemesEach es) ++ [ℓ]) ts) (rest : List Token) :
    Finds (Draws a · (Sketch.commas ((Expression.sketches es).map (Sketch.inOptional field))
        ++ [.mark ℓ.text]))
      (listed stop field close expected (ts ++ rest)) rest := by
  obtain ⟨us, c, rfl, hus, hc⟩ := hts.snoc
  have hkind : c.kind = close := hc.kind.trans hℓ
  rw [List.append_assoc, List.singleton_append]
  cases es with
  | nil =>
    cases Printed.nil hus
    exact ⟨[.anonymous c], _, hc.mark, listed_close hkind⟩
  | cons e es =>
    obtain ⟨he, hes⟩ := List.forall_mem_cons.1 hes
    have hstarters : close ∉ starters := by
      rcases hclose with rfl | rfl <;> decide
    rw [listed_items hstarters hus]
    exact finds_items hclose he hes hus hkind hc.mark

end

namespace Abstract.Expression.Reads

theorem array {es : List Expression} (hes : ∀ e ∈ es, e.Reads a stop) :
    (Expression.array es).Reads a stop := by
  refine .of_operand (operand_of_primary fun ts rest hts _ => ?_)
  obtain ⟨o, ts, rfl, ho, hts⟩ := Printed.cons hts
  obtain ⟨nodes, hlt, hnodes, hlisted⟩ :=
    finds_listed none .closeBracket (.inr rfl) hes rfl hts rest
  have hplain : (sketches es).map (Sketch.inOptional none) = sketches es := List.map_id _
  rw [hplain] at hnodes
  rw [List.cons_append]
  refine ⟨.branch .arrayExpression (.anonymous o) nodes, Nat.lt_succ_of_lt hlt,
    .branch rfl (ho.mark.cons hnodes), ?_⟩
  rw [primary.eq_def]
  dsimp only
  rw [ho.mark_kind]
  dsimp only
  rw [hlisted]
  rfl

theorem call {callee : Expression} {arguments : List Expression} (h : callee.Reads a stop)
    (hes : ∀ e ∈ arguments, e.Reads a stop) : (Expression.call callee arguments).Reads a stop :=
  .of_operand (h.callee.call fun _ rest hts =>
    finds_listed (some .arguments) .closeParen (.inl rfl) hes rfl hts rest)

theorem access {parent : Expression} (h : parent.Reads a stop) (x : Name) :
    (Expression.access parent x).Reads a stop :=
  .of_operand (h.callee.access x)

end Abstract.Expression.Reads

-- =================================================================== blocks

/-- Whether a printed statement is read back. -/
def Abstract.Statement.Reads (a : List Char) (stop : Span) (s : Statement) : Prop :=
  ∀ ts rest, Printed a s.lexemes ts →
    Finds (Draws a [·] [s.sketch]) (statement stop (ts ++ rest)) rest

/-- A statement begins with its keyword or as an expression does. -/
theorem Abstract.Statement.starts (s : Statement) :
    ∃ ℓ ls, s.lexemes = ℓ :: ls ∧ ℓ.kind ∈ [.let_, .return_] ++ starters := by
  cases s with
  | declaration first others => exact ⟨_, _, rfl, by decide⟩
  | assignment x value =>
    exact ⟨_, _, rfl, (by decide : TokenKind.identifier ∈ [.let_, .return_] ++ starters)⟩
  | return_ => exact ⟨_, _, rfl, by decide⟩
  | returnValue value => exact ⟨_, _, rfl, by decide⟩
  | expression e =>
    obtain ⟨ℓ, ls, hls, hstart⟩ := exists_cons_of_opens e.opens
    rw [Statement.lexemes, hls]
    exact ⟨ℓ, _, rfl, List.mem_append_right _ hstart⟩

theorem Printed.starts {s : Statement} {ts : List Token} (h : Printed a s.lexemes ts) :
    ∃ t us, ts = t :: us ∧ t.kind ∈ [.let_, .return_] ++ starters := by
  obtain ⟨ℓ, ls, hls, hkind⟩ := s.starts
  rw [hls] at h
  obtain ⟨t, us, rfl, ht, -⟩ := h.cons
  exact ⟨t, us, rfl, ht.kind ▸ hkind⟩

/-- The statements of a block and its closing brace. -/
theorem finds_blockItems {body : List Statement} (hbody : ∀ s ∈ body, s.Reads a stop)
    {ts : List Token} (hts : Printed a (Statement.lexemesAll body ++ [.mark .rbrace rfl]) ts)
    (rest : List Token) :
    Finds (Draws a · (Statement.sketches body ++ [.mark "\x7d".toList]))
      (blockItems stop (ts ++ rest)) rest := by
  induction body generalizing ts with
  | nil =>
    obtain ⟨c, rfl, hc⟩ := Printed.one hts
    rw [List.singleton_append]
    refine ⟨[.anonymous c], Nat.lt_succ_self _, hc.mark, ?_⟩
    rw [blockItems, if_pos hc.mark_kind]
  | cons s ss ih =>
    obtain ⟨hs, hss⟩ := List.forall_mem_cons.1 hbody
    rw [Statement.lexemesAll, List.append_assoc] at hts
    obtain ⟨us, vs, rfl, hus, hvs⟩ := hts.append
    have hread := hs us (vs ++ rest) hus
    obtain ⟨t, us, rfl, ht⟩ := hus.starts
    rw [List.cons_append] at hread
    rw [List.append_assoc, List.cons_append]
    obtain ⟨n, hlt, hn, hfirst⟩ := hread
    obtain ⟨nodes, hlt', hnodes, hmore⟩ := ih hss hvs
    have hbrace : t.kind ≠ .rbrace := by
      intro he
      rw [he] at ht
      exact absurd ht (by decide)
    refine ⟨n :: nodes, Nat.lt_trans hlt' hlt, hn.cons hnodes, ?_⟩
    rw [blockItems, if_neg hbrace, hfirst]
    dsimp only [bind, Except.bind]
    rw [hmore]
    rfl

/-- Statements in braces. -/
theorem finds_block {body : List Statement} (hbody : ∀ s ∈ body, s.Reads a stop)
    {ts : List Token} (hts : Printed a (braced (Statement.lexemesAll body)) ts)
    (rest : List Token) :
    Finds (Draws a [·] [Sketch.block (Statement.sketches body)]) (block stop (ts ++ rest))
      rest := by
  obtain ⟨o, ts, rfl, ho, hts⟩ := Printed.cons hts
  obtain ⟨nodes, hlt, hnodes, hitems⟩ := finds_blockItems hbody hts rest
  rw [List.cons_append]
  refine ⟨.branch .statementBlock (.anonymous o) nodes, Nat.lt_succ_of_lt hlt,
    .branch rfl (ho.mark.cons hnodes), ?_⟩
  rw [block, expect_eq ho.mark_kind]
  dsimp only [bind, Except.bind]
  rw [hitems]
  rfl

-- ================================================================== lambdas

/-- The parameters of a lambda after the first one. -/
theorem sees_lambdaTail {x : Name} {xs : List Name} {ts : List Token}
    (hts : Printed a (commas ((x :: xs).map fun x => [.name x])
      ++ [.mark .rparen rfl, .mark .doubleArrow rfl]) ts) (rest : List Token) :
    ∃ t us nodes, ts = t :: us ∧ t.kind = .identifier ∧
      lambdaTail? (us ++ rest) = some (nodes, rest) ∧
      Draws a ((Node.leaf .identifier t.span).inField .parameters :: nodes)
        (Sketch.commas ((x :: xs).map fun x => (Sketch.name x).inField .parameters)
          ++ [.mark ")".toList, .mark "=>".toList]) := by
  induction xs generalizing x ts with
  | nil =>
    rw [List.map_singleton, commas_one] at hts
    obtain ⟨t, us, rfl, ht, hus⟩ := Printed.cons hts
    obtain ⟨c, us, rfl, hc, hus⟩ := hus.cons
    obtain ⟨d, rfl, hd⟩ := hus.one
    have hparen := hc.mark_kind
    refine ⟨t, [c, d], [.anonymous c, .anonymous d], rfl, ht.kind, ?_,
      (ht.name.inField _).cons (hc.mark.cons hd.mark)⟩
    show lambdaTail? (c :: d :: rest) = _
    rw [lambdaTail?, if_neg (fun h => by rw [hparen] at h; cases h.1),
      if_pos ⟨hparen, hd.mark_kind⟩]
  | cons y ys ih =>
    rw [List.map_cons, List.map_cons, commas_cons_cons, List.append_assoc, List.cons_append] at hts
    obtain ⟨t, us, rfl, ht, hus⟩ := Printed.cons hts
    obtain ⟨k, us, rfl, hk, hus⟩ := hus.cons
    obtain ⟨u, vs, nodes, rfl, hu, htail, hnodes⟩ := ih hus
    refine ⟨t, k :: u :: vs, .anonymous k :: (Node.leaf .identifier u.span).inField .parameters
      :: nodes, rfl, ht.kind, ?_, (ht.name.inField _).cons (hk.mark.cons hnodes)⟩
    rw [List.cons_append, List.cons_append, lambdaTail?, if_pos ⟨hk.mark_kind, hu⟩, htail]
    rfl

/-- The head of a lambda after its opening parenthesis. -/
theorem sees_lambdaHead {parameters : List Name} {ts : List Token}
    (hts : Printed a (commas (parameters.map fun x => [.name x])
      ++ [.mark .rparen rfl, .mark .doubleArrow rfl]) ts) (rest : List Token) :
    ∃ nodes, lambdaHead? (ts ++ rest) = some (nodes, rest) ∧
      Draws a nodes (Sketch.commas (parameters.map fun x => (Sketch.name x).inField .parameters)
        ++ [.mark ")".toList, .mark "=>".toList]) := by
  cases parameters with
  | nil =>
    obtain ⟨c, ts, rfl, hc, hts⟩ := Printed.cons hts
    obtain ⟨d, rfl, hd⟩ := hts.one
    have hparen := hc.mark_kind
    refine ⟨[.anonymous c, .anonymous d], ?_, hc.mark.cons hd.mark⟩
    show lambdaHead? (c :: d :: rest) = _
    rw [lambdaHead?, if_neg (by rw [hparen]; decide), if_pos hparen, lambdaTail?,
      if_neg (fun h => by rw [hparen] at h; cases h.1), if_pos ⟨hparen, hd.mark_kind⟩]
  | cons x xs =>
    obtain ⟨t, us, nodes, rfl, ht, htail, hnodes⟩ := sees_lambdaTail hts rest
    refine ⟨(Node.leaf .identifier t.span).inField .parameters :: nodes, ?_, hnodes⟩
    rw [List.cons_append, lambdaHead?, if_pos ht, htail]
    rfl

theorem Abstract.Expression.Reads.lambda {parameters : List Name} {body : List Statement}
    (hbody : ∀ s ∈ body, s.Reads a stop) : (Expression.lambda parameters body).Reads a stop := by
  refine .of_operand (operand_of_primary fun ts rest hts _ => ?_)
  have hlexemes : (Expression.lambda parameters body).lexemes = .mark .lparen rfl
      :: ((commas (parameters.map fun x => [.name x])
        ++ [.mark .rparen rfl, .mark .doubleArrow rfl]) ++ braced (Statement.lexemesAll body)) := by
    rw [lexemes, List.append_assoc]
    rfl
  rw [hlexemes] at hts
  obtain ⟨o, ts, rfl, ho, hts⟩ := hts.cons
  obtain ⟨us, vs, rfl, hus, hvs⟩ := hts.append
  obtain ⟨head, hhead, hdraws⟩ := sees_lambdaHead hus (vs ++ rest)
  obtain ⟨n, hlt, hn, hblock⟩ := finds_block hbody hvs rest
  rw [List.cons_append, List.append_assoc]
  have hlen : rest.length < (o :: (us ++ (vs ++ rest))).length := by
    simp only [List.length_cons, List.length_append] at hlt ⊢
    omega
  have hnode : Draws a [.branch .lambdaExpression (.anonymous o) (head ++ [n.inField .body])]
      [(Expression.lambda parameters body).sketch] := by
    have hall := ho.mark.cons (hdraws.append (hn.inField .body))
    rw [List.append_assoc] at hall
    exact .branch rfl hall
  refine ⟨_, hlen, hnode, ?_⟩
  rw [primary.eq_def]
  dsimp only
  rw [ho.mark_kind]
  dsimp only
  split
  · rename_i head' after hsome
    rw [hhead] at hsome
    cases hsome
    rw [hblock]
    rfl
  · rename_i hnone
    rw [hhead] at hnone
    cases hnone

-- ============================================================= conditionals

/-- Whether a printed if expression is read back after its keyword. -/
def Abstract.Conditional.Reads (a : List Char) (stop : Span) (c : Conditional) : Prop :=
  ∀ ts rest, Printed a c.lexemes ts → Heads (· ≠ .else_) rest →
    ∃ t us, ts = t :: us ∧ t.kind = .if_ ∧
      Finds (Draws a [·] [c.sketch]) (conditional stop t (us ++ rest)) rest

/-- Whether the other arm of an if expression is read back. -/
def Abstract.Alternative.Reads (a : List Char) (stop : Span) (x : Alternative) : Prop :=
  ∀ ts rest, Printed a x.lexemes ts → Heads (· ≠ .else_) rest →
    ∀ bound (h : (ts ++ rest).length < bound),
      Finds (Draws a · x.sketches) (alternative? stop bound (ts ++ rest) h) rest

namespace Abstract

theorem Conditional.Reads.mk {condition : Expression} {consequence : List Statement}
    {alternative : Alternative} (hcondition : condition.Reads a stop)
    (hconsequence : ∀ s ∈ consequence, s.Reads a stop) (halternative : alternative.Reads a stop) :
    (Conditional.mk condition consequence alternative).Reads a stop := by
  intro ts rest hts hrest
  obtain ⟨i, ts, rfl, hi, hts⟩ := Printed.cons hts
  obtain ⟨o, ts, rfl, ho, hts⟩ := hts.cons
  obtain ⟨cs, ts, rfl, hcs, hts⟩ := hts.append
  obtain ⟨c, ts, rfl, hc, hts⟩ := hts.cons
  obtain ⟨bs, es, rfl, hbs, hes⟩ := hts.append
  have hclose := hc.mark_kind
  obtain ⟨n, hlt₁, hn, hinner⟩ :=
    hcondition.whole hcs (by rw [hclose]; decide) (bs ++ (es ++ rest))
  obtain ⟨b, hlt₂, hb, hblock⟩ := finds_block hconsequence hbs (es ++ rest)
  have hlt₃ : (es ++ rest).length < (o :: (cs ++ c :: (bs ++ (es ++ rest)))).length := by
    simp only [List.length_cons, List.length_append]
    omega
  obtain ⟨nodes, hlt₄, hnodes, hother⟩ := halternative es rest hes hrest _ hlt₃
  refine ⟨i, _, rfl, hi.mark_kind, ?_⟩
  have hshape : o :: (cs ++ c :: (bs ++ es)) ++ rest = o :: (cs ++ c :: (bs ++ (es ++ rest))) := by
    simp
  rw [hshape]
  have hparts := (ho.mark.cons ((hn.inField .condition).cons (hc.mark.cons
    (hb.inField .consequence)))).append hnodes
  refine ⟨_, hlt₄, .branch rfl (hi.mark.cons hparts), ?_⟩
  rw [conditional, expect_eq ho.mark_kind]
  dsimp only [bind, Except.bind]
  rw [hinner]
  dsimp only
  rw [expect_eq hclose]
  dsimp only
  rw [hblock]
  dsimp only
  rw [hother]
  rfl

theorem Expression.Reads.conditional {c : Conditional} (h : c.Reads a stop) :
    (Expression.conditional c).Reads a stop := by
  refine .of_operand (operand_of_primary fun ts rest hts hrest => ?_)
  obtain ⟨t, us, rfl, ht, n, hlt, hn, hcond⟩ := h ts rest hts hrest
  rw [List.cons_append]
  refine ⟨n, Nat.lt_succ_of_lt hlt, hn, ?_⟩
  rw [primary.eq_def]
  dsimp only
  rw [ht]
  dsimp only
  rw [hcond]
  rfl

namespace Alternative.Reads

theorem none : Alternative.none.Reads a stop := by
  intro ts rest hts hrest bound hlt
  cases Printed.nil hts
  exact ⟨[], hlt, rfl, alternative?_stopped hlt hrest⟩

theorem block {body : List Statement} (hbody : ∀ s ∈ body, s.Reads a stop) :
    (Alternative.block body).Reads a stop := by
  intro ts rest hts _ bound hlt
  obtain ⟨e, ts, rfl, he, hts⟩ := Printed.cons hts
  have hread := finds_block hbody hts rest
  obtain ⟨o, ts, rfl, ho, -⟩ := Printed.cons hts
  rw [List.cons_append] at hread
  obtain ⟨n, hlt', hn, hblock⟩ := hread
  show Finds _ (alternative? stop bound (e :: o :: (ts ++ rest)) hlt) rest
  refine ⟨[.anonymous e, n.inField .else_],
    Nat.lt_trans hlt' (Nat.lt_trans (Nat.lt_succ_self _) hlt),
    he.mark.cons (hn.inField _), ?_⟩
  rw [alternative?, if_pos he.mark_kind, if_neg (by rw [ho.mark_kind]; decide), hblock]
  rfl

theorem elseIf {c : Conditional} (h : c.Reads a stop) : (Alternative.elseIf c).Reads a stop := by
  intro ts rest hts hrest bound hlt
  obtain ⟨e, ts, rfl, he, hts⟩ := Printed.cons hts
  obtain ⟨t, us, rfl, ht, n, hlt', hn, hcond⟩ := h ts rest hts hrest
  show Finds _ (alternative? stop bound (e :: t :: (us ++ rest)) hlt) rest
  have hlen : rest.length < bound := by
    simp only [List.length_cons, List.length_append] at hlt hlt'
    omega
  refine ⟨[.anonymous e, n.inField .else_], hlen, he.mark.cons (hn.inField _), ?_⟩
  rw [alternative?, if_pos he.mark_kind, if_pos ht, hcond]
  rfl

end Alternative.Reads

end Abstract

-- ============================================================= declarations

/-- Whether a printed variable of a declaration is read back. -/
def Abstract.Declarator.Reads (a : List Char) (stop : Span) (d : Declarator) : Prop :=
  ∀ ts t rest, Printed a d.lexemes ts → t.kind = .comma ∨ t.kind = .semicolon →
    Finds (Draws a [·] [d.sketch]) (declarator stop (ts ++ t :: rest)) (t :: rest)

namespace Abstract.Declarator.Reads

theorem bare (x : Name) : (Declarator.bare x).Reads a stop := by
  intro ts t rest hts ht
  obtain ⟨u, rfl, hu⟩ := Printed.one hts
  have hkind : u.kind = .identifier := hu.kind
  have hassign : t.kind ≠ .assign := by
    rcases ht with ht | ht <;> rw [ht] <;> decide
  rw [List.singleton_append]
  refine ⟨_, Nat.lt_succ_self _, .branch rfl (hu.name.inField .variable_), ?_⟩
  rw [declarator, expect_eq hkind]
  dsimp only [bind, Except.bind]
  rw [if_neg hassign]
  rfl

theorem valued (x : Name) {value : Expression} (h : value.Reads a stop) :
    (Declarator.valued x value).Reads a stop := by
  intro ts t rest hts ht
  obtain ⟨u, ts, rfl, hu, hts⟩ := Printed.cons hts
  obtain ⟨e, ts, rfl, he, hts⟩ := hts.cons
  have hkind : u.kind = .identifier := hu.kind
  have hcloser : t.kind ∈ closers := by
    rcases ht with ht | ht <;> rw [ht] <;> decide
  obtain ⟨n, hlt, hn, hvalue⟩ := h.whole hts hcloser rest
  rw [List.cons_append, List.cons_append]
  refine ⟨_, Nat.lt_succ_of_lt (Nat.lt_succ_of_lt hlt),
    .branch rfl ((hu.name.inField .variable_).cons (he.mark.cons (hn.inField .value))), ?_⟩
  rw [declarator, expect_eq hkind]
  dsimp only [bind, Except.bind]
  rw [if_pos he.mark_kind, hvalue]
  rfl

end Abstract.Declarator.Reads

/-- The variables of a declaration. -/
theorem finds_declarators {d : Declarator} {ds : List Declarator} (hd : d.Reads a stop)
    (hds : ∀ d ∈ ds, d.Reads a stop) {ts : List Token}
    (hts : Printed a (commas (d.lexemes :: Declarator.lexemesEach ds)) ts) {t : Token}
    (ht : t.kind = .semicolon) (rest : List Token) :
    Finds (Draws a · (Sketch.commas (d.sketch :: Declarator.sketches ds)))
      (declarators stop (ts ++ t :: rest)) (t :: rest) := by
  induction ds generalizing d ts with
  | nil =>
    rw [Declarator.lexemesEach, commas_one] at hts
    obtain ⟨n, hlt, hn, hfirst⟩ := hd ts t rest hts (.inr ht)
    refine ⟨[n], hlt, hn, ?_⟩
    rw [declarators, hfirst]
    dsimp only [bind, Except.bind]
    rw [if_neg (by rw [ht]; decide)]
    rfl
  | cons d' ds ih =>
    obtain ⟨hd', hds⟩ := List.forall_mem_cons.1 hds
    rw [Declarator.lexemesEach, commas_cons_cons] at hts
    obtain ⟨us, vs, rfl, hus, hvs⟩ := hts.append
    obtain ⟨k, vs, rfl, hk, hvs⟩ := hvs.cons
    obtain ⟨n, hlt, hn, hfirst⟩ := hd us k (vs ++ t :: rest) hus (.inl hk.mark_kind)
    obtain ⟨nodes, hlt', hnodes, hmore⟩ := ih hd' hds hvs
    rw [List.append_assoc, List.cons_append]
    refine ⟨n :: .anonymous k :: nodes, Nat.lt_trans hlt' (length_lt_of_append us k _),
      hn.cons (hk.mark.cons hnodes), ?_⟩
    rw [declarators, hfirst]
    dsimp only [bind, Except.bind]
    rw [if_pos hk.mark_kind, hmore]
    rfl

-- =============================================================== statements

theorem finish_semicolon {ts rest : List Token} {t : Token} (ht : t.kind = .semicolon)
    (hlt : (t :: rest).length < ts.length) : finish stop ts (t :: rest) hlt =
      .ok ⟨[.anonymous t], rest, Nat.lt_of_succ_lt hlt⟩ := by
  rw [finish, if_pos ht]

/-- A statement without `=` after its first token is no assignment. -/
theorem plainStatement_eq {t : Token} {rest : List Token} (h : Heads (· ≠ .assign) rest) :
    plainStatement stop (t :: rest) = expressionStatement stop (t :: rest) := by
  cases rest with
  | nil =>
    rw [plainStatement]
    simp
  | cons u rest => rw [plainStatement, if_neg fun hk => h u rfl hk.2]

/-- A statement without a keyword in front is an assignment or an expression. -/
theorem statement_eq_plainStatement {t : Token} {rest : List Token} (hlet : t.kind ≠ .let_)
    (hreturn : t.kind ≠ .return_) :
    statement stop (t :: rest) = plainStatement stop (t :: rest) := by
  rw [statement.eq_def]
  dsimp only
  split
  · exact absurd ‹t.kind = .let_› hlet
  · exact absurd ‹t.kind = .return_› hreturn
  · rfl

/-- What begins as an expression, with no `=` behind a name, is one. -/
theorem statement_eq_expressionStatement {ts rest : List Token} {t : Token}
    (h : Opens (ts.map Token.kind)) (ht : t.kind ≠ .assign) :
    statement stop (ts ++ t :: rest) = expressionStatement stop (ts ++ t :: rest) := by
  cases ts with
  | nil => exact h.elim
  | cons u us =>
    obtain ⟨hstart, hnext⟩ := h
    have hplain : plainStatement stop (u :: (us ++ t :: rest)) =
        expressionStatement stop (u :: (us ++ t :: rest)) := by
      cases us with
      | nil => exact plainStatement_eq (.cons ht)
      | cons v us =>
        have hassign : ¬ (u.kind = .identifier ∧ v.kind = .assign) := by
          rintro ⟨hname, he⟩
          exact absurd (he ▸ hnext hname v.kind rfl) (by decide)
        rw [List.cons_append, plainStatement, if_neg hassign]
    have hlet : u.kind ≠ .let_ := fun hk => absurd (hk ▸ hstart) (by decide)
    have hreturn : u.kind ≠ .return_ := fun hk => absurd (hk ▸ hstart) (by decide)
    rw [List.cons_append, statement_eq_plainStatement hlet hreturn]
    exact hplain

namespace Abstract.Statement.Reads

theorem declaration {first : Declarator} {others : List Declarator} (hfirst : first.Reads a stop)
    (hothers : ∀ d ∈ others, d.Reads a stop) :
    (Statement.declaration first others).Reads a stop := by
  intro ts rest hts
  obtain ⟨l, ts, rfl, hl, hts⟩ := Printed.cons hts
  obtain ⟨us, t, rfl, hus, ht⟩ := Printed.snoc hts
  obtain ⟨nodes, hlt, hnodes, hinner⟩ := finds_declarators hfirst hothers hus ht.mark_kind rest
  rw [List.cons_append, List.append_assoc, List.singleton_append]
  have hlen : rest.length < (l :: (us ++ t :: rest)).length :=
    Nat.lt_succ_of_lt (Nat.lt_of_succ_lt hlt)
  refine ⟨_, hlen, .branch rfl (hl.mark.cons (hnodes.append ht.mark)), ?_⟩
  rw [statement.eq_def]
  dsimp only
  rw [hl.mark_kind]
  dsimp only
  rw [hinner]
  dsimp only [bind, Except.bind]
  rw [finish_semicolon ht.mark_kind]
  rfl

theorem assignment (x : Name) {value : Expression} (h : value.Reads a stop) :
    (Statement.assignment x value).Reads a stop := by
  intro ts rest hts
  obtain ⟨u, ts, rfl, hu, hts⟩ := Printed.cons hts
  obtain ⟨e, ts, rfl, he, hts⟩ := hts.cons
  obtain ⟨us, t, rfl, hus, ht⟩ := Printed.snoc hts
  have hkind : u.kind = .identifier := hu.kind
  obtain ⟨n, hlt, hn, hvalue⟩ := h.whole hus (by rw [ht.mark_kind]; decide) rest
  rw [List.cons_append, List.cons_append, List.append_assoc, List.singleton_append]
  have hlen : rest.length < (u :: e :: (us ++ t :: rest)).length :=
    Nat.lt_succ_of_lt (Nat.lt_succ_of_lt (Nat.lt_of_succ_lt hlt))
  refine ⟨_, hlen, .branch rfl ((hu.name.inField .lhs).cons (he.mark.cons
    ((hn.inField .rhs).cons ht.mark))), ?_⟩
  rw [statement.eq_def]
  dsimp only
  rw [hkind]
  dsimp only
  rw [plainStatement, if_pos ⟨hkind, he.mark_kind⟩, hvalue]
  dsimp only [bind, Except.bind]
  rw [finish_semicolon ht.mark_kind]
  rfl

theorem return_ : Statement.return_.Reads a stop := by
  intro ts rest hts
  obtain ⟨r, ts, rfl, hr, hts⟩ := Printed.cons hts
  obtain ⟨t, rfl, ht⟩ := hts.one
  rw [List.cons_append, List.singleton_append]
  refine ⟨_, Nat.lt_succ_of_lt (Nat.lt_succ_self _), .branch rfl (hr.mark.cons ht.mark), ?_⟩
  rw [statement.eq_def]
  dsimp only
  rw [hr.mark_kind]
  dsimp only
  rw [if_pos (.inl ht.mark_kind), finish_semicolon ht.mark_kind]
  rfl

theorem returnValue {value : Expression} (h : value.Reads a stop) :
    (Statement.returnValue value).Reads a stop := by
  intro ts rest hts
  obtain ⟨r, ts, rfl, hr, hts⟩ := Printed.cons hts
  obtain ⟨us, t, rfl, hus, ht⟩ := Printed.snoc hts
  have hread := h.whole hus (by rw [ht.mark_kind]; decide) rest
  obtain ⟨u, us, rfl, hu⟩ := hus.heads
  have hends : ¬ (u.kind = .semicolon ∨ u.kind = .rbrace) := by
    rintro (he | he)
    · exact absurd (he ▸ hu) (by decide)
    · exact absurd (he ▸ hu) (by decide)
  rw [List.cons_append, List.append_assoc, List.singleton_append]
  rw [List.cons_append] at hread ⊢
  obtain ⟨n, hlt, hn, hvalue⟩ := hread
  have hlen : rest.length < (r :: u :: (us ++ t :: rest)).length :=
    Nat.lt_succ_of_lt (Nat.lt_of_succ_lt hlt)
  refine ⟨_, hlen, .branch rfl (hr.mark.cons ((hn.inField .value).cons ht.mark)), ?_⟩
  rw [statement.eq_def]
  dsimp only
  rw [hr.mark_kind]
  dsimp only
  rw [if_neg hends, hvalue]
  dsimp only [bind, Except.bind]
  rw [finish_semicolon ht.mark_kind]
  rfl

theorem expression {e : Expression} (h : e.Reads a stop) :
    (Statement.expression e).Reads a stop := by
  intro ts rest hts
  obtain ⟨us, t, rfl, hus, ht⟩ := Printed.snoc hts
  rw [List.append_assoc, List.singleton_append]
  obtain ⟨n, hlt, hn, hinner⟩ := h.whole hus (by rw [ht.mark_kind]; decide) rest
  refine ⟨_, Nat.lt_of_succ_lt hlt, .branch rfl (hn.cons ht.mark), ?_⟩
  rw [statement_eq_expressionStatement (hus.kinds ▸ e.opens) (by rw [ht.mark_kind]; decide),
    expressionStatement, hinner]
  dsimp only [bind, Except.bind]
  rw [finish_semicolon ht.mark_kind]
  rfl

end Abstract.Statement.Reads

end SamScript
