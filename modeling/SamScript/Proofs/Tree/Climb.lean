/-
How printed expressions are read. An expression is read in two ways, and its
lemma says both: where an operand is wanted, with calls and attributes still
to come (`Operand`), and where operators of some precedence are (`Climbs`).
Two operands and their operator climb as far as the operator does
(`Climbs.binary`), and in parentheses they are an operand again
(`Operand.group`).
-/
import SamScript.Proofs.Tree.Printed

namespace SamScript

open Abstract SamScript.Parser

variable {a : List Char} {stop : Span}

-- ================================================================= climbing

section

variable {α : Type} {bound : Nat}

/-- Whether a value of some kind is found, and these tokens are left. -/
def Finds (P : α → Prop) (x : Except ParseError (Taken bound α)) (rest : List Token) : Prop :=
  ∃ value h, P value ∧ x = .ok ⟨value, rest, h⟩

/-- Whether nothing at the front of some tokens goes on with an expression: no
arguments, no attribute, no other arm, and no operator that binds at least
this tightly. -/
def Stopped (least : Nat) : List Token → Prop :=
  Heads fun k => k ≠ .lparen ∧ k ≠ .dot ∧ k ≠ .else_ ∧ ∀ p ∈ precedence? k, p < least

/-- Whether an operator at the front of some tokens binds less tightly than this. -/
def Below (least : Nat) : List Token → Prop :=
  Heads fun k => ∀ p ∈ precedence? k, p < least

/-- Whether printed lexemes are read as an operand with this sketch, to go on
with calls and attributes. -/
def Operand (a : List Char) (stop : Span) (ls : List Lexeme) (s : Sketch) : Prop :=
  ∀ ts rest, Printed a ls ts → Heads (· ≠ .else_) rest →
    ∃ n h, Draws a [n] [s] ∧
      postfixExpr stop (ts ++ rest) = suffixes stop (ts ++ rest).length n rest h

/-- Whether printed lexemes are read as a left operand with this sketch, to go
on with operators that bind no more tightly than `q`. -/
def Climbs (a : List Char) (stop : Span) (q : Nat) (ls : List Lexeme) (s : Sketch) : Prop :=
  ∀ least ts rest, least ≤ q → Printed a ls ts → Stopped (q + 1) rest →
    ∃ n h, Draws a [n] [s] ∧
      binary stop least (ts ++ rest) = operators stop least (ts ++ rest).length n rest h

theorem length_lt_of_append (us : List Token) (t : Token) (rest : List Token) :
    rest.length < (us ++ t :: rest).length := by
  rw [List.length_append, List.length_cons]
  omega

theorem Stopped.mono {p q : Nat} {rest : List Token} (h : Stopped p rest) (hle : p ≤ q) :
    Stopped q rest := by
  intro t ht
  obtain ⟨hparen, hdot, helse, hprec⟩ := h t ht
  exact ⟨hparen, hdot, helse, fun k hk => Nat.lt_of_lt_of_le (hprec k hk) hle⟩

theorem stopped_closer {t : Token} {rest : List Token} (h : t.kind ∈ closers) :
    Stopped 0 (t :: rest) := by
  refine .cons ?_
  have hclosers : ∀ k ∈ closers, k ≠ .lparen ∧ k ≠ .dot ∧ k ≠ .else_ ∧ precedence? k = none := by
    decide
  obtain ⟨hparen, hdot, helse, hnone⟩ := hclosers t.kind h
  exact ⟨hparen, hdot, helse, fun p hp => by rw [hnone] at hp; cases hp⟩

/-- An operator that binds less tightly is left alone. -/
theorem operators_below {least : Nat} {n : Node} {rest : List Token} (hlt : rest.length < bound)
    (h : Below least rest) : operators stop least bound n rest hlt = .ok ⟨n, rest, hlt⟩ := by
  cases rest with
  | nil => rw [operators]
  | cons t rest =>
    rw [operators]
    split
    · rfl
    · rename_i p hp
      rw [if_neg (Nat.not_le.2 (h t rfl p hp))]

/-- An operator that binds tightly enough takes the operand behind it. -/
theorem operators_take {least p : Nat} {n right : Node} {op : Token} {ts rest : List Token}
    (hlt : (op :: ts).length < bound) {h : rest.length < ts.length}
    (hp : precedence? op.kind = some p) (hle : least ≤ p)
    (hright : binary stop (p + 1) ts = .ok ⟨right, rest, h⟩) :
    operators stop least bound n (op :: ts) hlt =
      operators stop least bound
        (.branch .binaryExpression (n.inField .left) [.anonymous op, right.inField .right]) rest
        (Nat.lt_trans (Nat.lt_succ_of_lt h) hlt) := by
  rw [operators]
  split
  · rename_i hnone
    rw [hp] at hnone
    cases hnone
  · rename_i q hq
    rw [hp] at hq
    cases hq
    rw [if_pos hle, hright]
    rfl

theorem operators_stopped {least : Nat} {n : Node} {rest : List Token} (hlt : rest.length < bound)
    (h : Stopped least rest) : operators stop least bound n rest hlt = .ok ⟨n, rest, hlt⟩ :=
  operators_below hlt fun t ht => (h t ht).2.2.2

theorem suffixes_stopped {q : Nat} {n : Node} {rest : List Token} (hlt : rest.length < bound)
    (h : Stopped q rest) : suffixes stop bound n rest hlt = .ok ⟨n, rest, hlt⟩ := by
  cases rest with
  | nil => rw [suffixes]
  | cons t rest =>
    obtain ⟨hparen, hdot, -⟩ := h t rfl
    rw [suffixes, if_neg hparen, if_neg hdot]

theorem alternative?_stopped {rest : List Token} (hlt : rest.length < bound)
    (h : Heads (· ≠ .else_) rest) : alternative? stop bound rest hlt = .ok ⟨[], rest, hlt⟩ := by
  cases rest with
  | nil => rw [alternative?]
  | cons t rest =>
    rw [alternative?.eq_def]
    dsimp only
    rw [if_neg (h t rfl)]

section

variable {ls ms : List Lexeme} {s u : Sketch} {p q : Nat}

theorem Climbs.mono (h : Climbs a stop q ls s) (hle : p ≤ q) : Climbs a stop p ls s :=
  fun least ts rest hleast hts hrest => h least ts rest (Nat.le_trans hleast hle) hts
    (hrest.mono (Nat.succ_le_succ hle))

/-- An operand is a left operand of any operator. -/
theorem Operand.climbs (h : Operand a stop ls s) (q : Nat) : Climbs a stop q ls s := by
  intro least ts rest _ hts hrest
  obtain ⟨n, hlt, hn, hpost⟩ := h ts rest hts fun t ht => (hrest t ht).2.2.1
  rw [suffixes_stopped hlt hrest] at hpost
  refine ⟨n, hlt, hn, ?_⟩
  rw [Parser.binary, hpost]
  rfl

/-- A whole expression. -/
theorem Climbs.expression {ts rest : List Token} (h : Climbs a stop q ls s) (hts : Printed a ls ts)
    (hrest : Stopped 0 rest) :
    Finds (Draws a [·] [s]) (Parser.expression stop (ts ++ rest)) rest := by
  obtain ⟨n, hlt, hn, hbinary⟩ := h 0 ts rest (Nat.zero_le _) hts (hrest.mono (Nat.zero_le _))
  rw [operators_stopped hlt hrest] at hbinary
  exact ⟨n, hlt, hn, by rw [Parser.expression, hbinary]⟩

/-- Two operands and an operator. The left operand may stop at an operator
that binds as tightly, the right one may not. -/
theorem Climbs.binary {op : Operator} (hl : Climbs a stop op.precedence ls s)
    (hr : Climbs a stop (op.precedence + 1) ms u) :
    Climbs a stop op.precedence (ls ++ op.lexeme :: ms) (.branch .binaryExpression
      [s.inField .left, .mark op.text.toList, u.inField .right]) := by
  intro least ts rest hleast hts hrest
  obtain ⟨us, vs, rfl, hus, hvs⟩ := hts.append
  obtain ⟨o, vs, rfl, ho, hvs⟩ := hvs.cons
  rw [List.append_assoc, List.cons_append]
  have hkind : o.kind = op.token := ho.kind
  have hprec : precedence? o.kind = some op.precedence := by
    rw [hkind, op.precedence?_token]
  have hother : op.token ≠ .lparen ∧ op.token ≠ .dot ∧ op.token ≠ .else_ := by
    cases op <;> decide
  have hstop : Stopped (op.precedence + 1) (o :: (vs ++ rest)) := by
    rw [← hkind] at hother
    refine .cons ⟨hother.1, hother.2.1, hother.2.2, fun p hp => ?_⟩
    rw [hprec] at hp
    cases hp
    exact Nat.lt_succ_self _
  obtain ⟨n, hlt, hn, hleft⟩ := hl least us (o :: (vs ++ rest)) hleast hus hstop
  -- the right operand is read with a higher bound, so the operator after it is left alone
  obtain ⟨m, hlt', hm, hright⟩ := hr (op.precedence + 1) vs rest (Nat.le_refl _) hvs
    (hrest.mono (Nat.le_succ _))
  rw [operators_stopped hlt' hrest] at hright
  have hop : Draws a [.anonymous o] [.mark op.text.toList] := by
    rw [← op.text_lexeme]
    exact ho.mark
  have hlen := Nat.lt_trans hlt' (length_lt_of_append us o (vs ++ rest))
  refine ⟨.branch .binaryExpression (n.inField .left) [.anonymous o, m.inField .right], hlen,
    .branch rfl ((hn.inField _).cons (hop.cons (hm.inField _))), ?_⟩
  rw [hleft]
  exact operators_take hlt hprec hleast hright

end

-- ================================================================ operands

theorem expect_eq {kind : TokenKind} {expected : Expected} {t : Token} {rest : List Token}
    (h : t.kind = kind) :
    expect stop kind expected (t :: rest) = .ok ⟨t, rest, Nat.lt_succ_self _⟩ :=
  if_pos h

/-- Behind a name a lambda's head goes on with a comma or ends with a
parenthesis. -/
theorem lambdaTail?_eq_none {ts : List Token} (h : Heads (fun k => k ≠ .comma ∧ k ≠ .rparen) ts) :
    lambdaTail? ts = none := by
  match ts with
  | [] => rfl
  | [_] => rfl
  | t :: u :: ts =>
    obtain ⟨hcomma, hparen⟩ := h t rfl
    rw [lambdaTail?, if_neg fun hk => hcomma hk.1, if_neg fun hk => hparen hk.1]

/-- What is no head of a lambda does not become one by what follows. -/
theorem lambdaHead?_eq_none {ts rest : List Token} (h : Opens (ts.map Token.kind))
    (hlen : 2 ≤ ts.length) : lambdaHead? (ts ++ rest) = none := by
  match ts, hlen with
  | t :: u :: us, _ =>
    obtain ⟨hstart, hnext⟩ := h
    have hclose : t.kind ≠ .rparen := by
      intro he
      rw [he] at hstart
      exact absurd hstart (by decide)
    rw [List.cons_append, lambdaHead?]
    by_cases hname : t.kind = .identifier
    · have hu : u.kind ∈ followers := hnext hname u.kind rfl
      have hfollowers : ∀ k ∈ followers, k ≠ .comma ∧ k ≠ .rparen := by decide
      rw [if_pos hname, List.cons_append, lambdaTail?_eq_none (.cons (hfollowers u.kind hu))]
      rfl
    · rw [if_neg hname, if_neg hclose]

section

variable {ls : List Lexeme} {s : Sketch} {q : Nat}

/-- An expression in parentheses. -/
theorem Operand.group (h : Climbs a stop q ls s) (hopens : Opens (ls.map Lexeme.kind))
    (hlen : 2 ≤ ls.length) : Operand a stop (grouped true ls) s := by
  intro ts rest hts _
  obtain ⟨o, ts, rfl, ho, hts⟩ := Printed.cons hts
  obtain ⟨us, c, rfl, hus, hc⟩ := hts.snoc
  have hkind := hc.mark_kind
  have hkinds := hus.kinds
  have hhead : lambdaHead? (us ++ c :: rest) = none := by
    refine lambdaHead?_eq_none (by rwa [hkinds]) ?_
    rw [← List.length_map Token.kind, hkinds, List.length_map]
    exact hlen
  obtain ⟨n, hlt, hn, hinner⟩ := h.expression hus (stopped_closer (hkind ▸ by decide) :
    Stopped 0 (c :: rest))
  have hshape : o :: (us ++ [c]) ++ rest = o :: (us ++ c :: rest) := by simp
  rw [hshape]
  have hlen := Nat.lt_succ_of_lt (length_lt_of_append us c rest)
  refine ⟨n, hlen, hn, ?_⟩
  have hprimary : primary stop (o :: (us ++ c :: rest)) = .ok ⟨n, rest, hlen⟩ := by
    rw [primary.eq_def]
    dsimp only
    rw [ho.mark_kind]
    dsimp only
    split
    · rename_i hsome
      rw [hhead] at hsome
      cases hsome
    · rw [hinner]
      dsimp only [bind, Except.bind]
      rw [expect_eq hkind]
      rfl
  rw [postfixExpr, hprimary]
  rfl

/-- A call. -/
theorem Operand.call {ms : List Lexeme} {ss : List Sketch} (h : Operand a stop ls s)
    (hitems : ∀ ts rest, Printed a ms ts → Finds (Draws a · ss)
      (listed stop (some .arguments) .rparen .closeParen (ts ++ rest)) rest) :
    Operand a stop (ls ++ .mark .lparen rfl :: ms) (.branch .callExpression
      (s.inField .function :: .mark "(".toList :: ss)) := by
  intro ts rest hts _
  obtain ⟨us, vs, rfl, hus, hvs⟩ := hts.append
  obtain ⟨o, vs, rfl, ho, hvs⟩ := hvs.cons
  rw [List.append_assoc, List.cons_append]
  have hkind := ho.mark_kind
  obtain ⟨n, hlt, hn, hpost⟩ := h us (o :: (vs ++ rest)) hus (.cons (hkind ▸ by decide))
  obtain ⟨items, hlt', hitems, hlisted⟩ := hitems vs rest hvs
  have hlen := Nat.lt_trans hlt' (length_lt_of_append us o (vs ++ rest))
  refine ⟨.branch .callExpression (n.inField .function) (.anonymous o :: items), hlen,
    .branch rfl ((hn.inField _).cons (ho.mark.cons hitems)), ?_⟩
  rw [hpost, suffixes, if_pos hkind, hlisted]
  rfl

/-- An attribute. -/
theorem Operand.access (h : Operand a stop ls s) (x : Name) :
    Operand a stop (ls ++ [.mark .dot rfl, .name x]) (.branch .nestedIdentifier
      [s.inField .parent, .mark ".".toList, (Sketch.name x).inField .name]) := by
  intro ts rest hts _
  obtain ⟨us, vs, rfl, hus, hvs⟩ := hts.append
  obtain ⟨dot, vs, rfl, hdot, hvs⟩ := hvs.cons
  obtain ⟨t, rfl, ht⟩ := hvs.one
  rw [List.append_assoc, List.cons_append, List.singleton_append]
  have hkind := hdot.mark_kind
  have hname : t.kind = .identifier := ht.kind
  obtain ⟨n, hlt, hn, hpost⟩ := h us (dot :: t :: rest) hus (.cons (hkind ▸ by decide))
  have hlen := Nat.lt_of_succ_lt (length_lt_of_append us dot (t :: rest))
  refine ⟨.branch .nestedIdentifier (n.inField .parent)
      [.anonymous dot, (Node.leaf .identifier t.span).inField .name], hlen,
    .branch rfl ((hn.inField _).cons (hdot.mark.cons (ht.name.inField _))), ?_⟩
  rw [hpost, suffixes, if_neg (hkind ▸ by decide), if_pos hkind, expect_eq hname]
  rfl

/-- What is read as a primary expression is an operand. -/
theorem operand_of_primary (h : ∀ ts rest, Printed a ls ts → Heads (· ≠ .else_) rest →
    Finds (Draws a [·] [s]) (primary stop (ts ++ rest)) rest) : Operand a stop ls s := by
  intro ts rest hts hrest
  obtain ⟨n, hlt, hn, hprimary⟩ := h ts rest hts hrest
  refine ⟨n, hlt, hn, ?_⟩
  rw [postfixExpr, hprimary]
  rfl

end

/-- What is read from one token is an operand. -/
theorem operand_of_token {ℓ : Lexeme} {s : Sketch} {node : Token → Node}
    (hdraws : ∀ t, ℓ.Prints a t → Draws a [node t] [s])
    (hprimary : ∀ t rest, t.kind = ℓ.kind →
      primary stop (t :: rest) = .ok ⟨node t, rest, Nat.lt_succ_self _⟩) :
    Operand a stop [ℓ] s := by
  refine operand_of_primary fun ts rest hts _ => ?_
  obtain ⟨t, rfl, ht⟩ := hts.one
  exact ⟨node t, _, hdraws t ht, hprimary t rest ht.kind⟩

theorem operand_number (negative : Bool) (k : Number) : Operand a stop
    (Expression.number negative k).lexemes (Expression.number negative k).sketch := by
  cases negative with
  | false =>
    refine operand_of_token (fun t ht => ht.number) fun t rest hk => ?_
    rw [primary.eq_def]
    dsimp only
    rw [hk]
    rfl
  | true =>
    refine operand_of_primary fun ts rest hts _ => ?_
    obtain ⟨m, t, ts, rfl, hm, ht, htouch, hts⟩ := Printed.touches hts
    cases hts.nil
    rw [List.cons_append, List.singleton_append]
    refine ⟨_, Nat.lt_succ_of_lt (Nat.lt_succ_self _), hm.negative ht htouch, ?_⟩
    rw [primary.eq_def]
    dsimp only
    rw [hm.kind]
    dsimp only [Lexeme.kind]
    rw [if_pos ⟨ht.kind, htouch⟩]

theorem operand_string (x : StringLiteral) : Operand a stop
    (Expression.string x).lexemes (Expression.string x).sketch := by
  refine operand_of_token (fun t ht => .branch rfl ht.string) fun t rest hk => ?_
  rw [primary.eq_def]
  dsimp only
  rw [hk]
  rfl

theorem operand_name (x : Name) : Operand a stop
    (Expression.name x).lexemes (Expression.name x).sketch := by
  refine operand_of_token (fun t ht => ht.name) fun t rest hk => ?_
  rw [primary.eq_def]
  dsimp only
  rw [hk]
  rfl

end

-- ============================================================== expressions

/-- Whether a printed expression is read back, as an operand and as a left
operand. -/
structure Abstract.Expression.Reads (a : List Char) (stop : Span) (e : Expression) : Prop where
  operand : 7 ≤ e.level → Operand a stop e.lexemes e.sketch
  climbs : Climbs a stop e.level e.lexemes e.sketch

namespace Abstract.Expression

theorem two_le_length {e : Expression} (h : e.level < 7) : 2 ≤ e.lexemes.length := by
  cases e with
  | binary op left right =>
    obtain ⟨ℓ, ls, hls, -⟩ := exists_cons_of_opens (opens_grouped left.opens
      (decide (left.level < op.precedence)))
    rw [lexemes, hls, List.length_append, List.length_cons, List.length_cons]
    omega
  | _ => exact absurd h (Nat.lt_irrefl 7)

namespace Reads

variable {e : Expression}

theorem of_operand (h : Operand a stop e.lexemes e.sketch) : e.Reads a stop :=
  ⟨fun _ => h, h.climbs _⟩

/-- A whole expression, with what may come after it. -/
theorem whole (h : e.Reads a stop) {ts : List Token} (hts : Printed a e.lexemes ts) {t : Token}
    (ht : t.kind ∈ closers) (rest : List Token) :
    Finds (Draws a [·] [e.sketch]) (expression stop (ts ++ t :: rest)) (t :: rest) :=
  h.climbs.expression hts (stopped_closer ht)

theorem group (h : e.Reads a stop) (hlevel : e.level < 7) :
    Operand a stop (grouped true e.lexemes) e.sketch :=
  Operand.group h.climbs e.opens (two_le_length hlevel)

/-- An expression before its arguments or an attribute. -/
theorem callee (h : e.Reads a stop) :
    Operand a stop (grouped (e.level < 7) e.lexemes) e.sketch := by
  by_cases hlevel : e.level < 7
  · rw [decide_eq_true hlevel]
    exact h.group hlevel
  · rw [decide_eq_false hlevel]
    exact h.operand (Nat.not_lt.1 hlevel)

/-- An operand of an operator, in parentheses if it binds less tightly than
`q`. -/
theorem side (h : e.Reads a stop) {q : Nat} (hq : q ≤ 7) :
    Climbs a stop q (grouped (e.level < q) e.lexemes) e.sketch := by
  by_cases hlevel : e.level < q
  · rw [decide_eq_true hlevel]
    exact (h.group (Nat.lt_of_lt_of_le hlevel hq)).climbs q
  · rw [decide_eq_false hlevel]
    exact h.climbs.mono (Nat.not_lt.1 hlevel)

theorem binary {op : Operator} {left right : Expression} (hl : left.Reads a stop)
    (hr : right.Reads a stop) : (Expression.binary op left right).Reads a stop := by
  refine ⟨fun hlevel => absurd op.precedence_lt (Nat.not_lt.2 hlevel), ?_⟩
  have hright := hr.side (Nat.succ_le_of_lt op.precedence_lt)
  simp only [Nat.lt_succ_iff] at hright
  exact (hl.side (Nat.le_of_lt op.precedence_lt)).binary hright

end Reads

end Abstract.Expression

end SamScript
