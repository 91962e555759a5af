/-
Chains of operators. An expression is an operand and, as far as they go, binary
operators with an operand behind each (`Chain`). Of the trees over a chain that keep
its order one is as the operators bind (`Grouping.Over.unique`): to the left of an
operator stands none that binds less tightly, to its right only such as bind more
tightly. The loop over operators builds this one. What carries it is that the operator
in front binds no more tightly than what was read last, and no operator read so far less
tightly than the least that is wanted (`operators_group`).
-/
import SamScript.Proofs.Tree.Climb
import SamScript.Proofs.Tree.Soundness

namespace SamScript

open SamScript.Parser

-- ============================================================== operators

/-- A token of a binary operator. -/
structure Link where
  operator : Operator
  token : Token
  kind_eq : token.kind = operator.token

namespace Link

/-- How tightly it binds. -/
def precedence (op : Link) : Nat :=
  op.operator.precedence

theorem precedence?_kind (op : Link) : precedence? op.token.kind = some op.precedence := by
  rw [op.kind_eq]
  exact op.operator.precedence?_token

/-- An operator is known by its token. -/
theorem eq_of_token {op op' : Link} (h : op.token = op'.token) : op = op' := by
  obtain ⟨a, t, ha⟩ := op
  obtain ⟨b, u, hb⟩ := op'
  obtain rfl : t = u := h
  have hkind : a.token = b.token := ha.symm.trans hb
  obtain rfl : a = b := by cases a <;> cases b <;> first | rfl | cases hkind
  rfl

/-- What binds at all is an operator. -/
theorem exists_of_precedence? {t : Token} {p : Nat} (h : precedence? t.kind = some p) :
    ∃ op : Link, op.token = t ∧ op.precedence = p := by
  have hkind : ∃ op : Operator, t.kind = op.token := by
    generalize t.kind = k at h
    cases k with
    | plus => exact ⟨.add, rfl⟩
    | minus => exact ⟨.subtract, rfl⟩
    | star => exact ⟨.multiply, rfl⟩
    | slash => exact ⟨.divide, rfl⟩
    | percent => exact ⟨.remainder, rfl⟩
    | lt => exact ⟨.less, rfl⟩
    | gt => exact ⟨.greater, rfl⟩
    | le => exact ⟨.lessEqual, rfl⟩
    | ge => exact ⟨.greaterEqual, rfl⟩
    | eq => exact ⟨.equal, rfl⟩
    | ne => exact ⟨.notEqual, rfl⟩
    | and => exact ⟨.and, rfl⟩
    | or => exact ⟨.or, rfl⟩
    | _ => cases h
  obtain ⟨op, hop⟩ := hkind
  refine ⟨⟨op, t, hop⟩, rfl, Option.some.inj ?_⟩
  rw [← h]
  exact (precedence?_kind _).symm

end Link

-- =============================================================== groupings

/-- A tree over the operands and operators of a chain. -/
inductive Grouping where
  | operand (n : Node)
  | binary (left : Grouping) (op : Link) (right : Grouping)

namespace Grouping

/-- The node of a grouping. -/
def node : Grouping → Node
  | .operand n => n
  | .binary left op right =>
    .branch .binaryExpression (left.node.inField .left)
      [.anonymous op.token, right.node.inField .right]

/-- The first operand. -/
def first : Grouping → Node
  | .operand n => n
  | .binary left _ _ => left.first

/-- The operators from left to right, each with the operand behind it. -/
def others : Grouping → List (Link × Node)
  | .operand _ => []
  | .binary left op right => left.others ++ (op, right.first) :: right.others

/-- Whether a grouping is an operand or its own operator binds at least this tightly. -/
def Binds (p : Nat) : Grouping → Prop
  | .operand _ => True
  | .binary _ op _ => p ≤ op.precedence

/-- Whether operators group as they bind, and to the left where they bind alike. -/
def Grouped : Grouping → Prop
  | .operand _ => True
  | .binary left op right =>
    left.Binds op.precedence ∧ right.Binds (op.precedence + 1) ∧ left.Grouped ∧ right.Grouped

/-- Whether a grouping is one of a chain, as its operators bind. -/
structure Over (first : Node) (others : List (Link × Node)) (g : Grouping) : Prop where
  first_eq : g.first = first
  others_eq : g.others = others
  grouped : g.Grouped

variable {g g' : Grouping} {p q : Nat}

theorem Binds.mono (h : g.Binds q) (hle : p ≤ q) : g.Binds p := by
  cases g with
  | operand n => trivial
  | binary left op right => exact Nat.le_trans hle h

/-- In a grouping no operator binds less tightly than the topmost one. -/
theorem Grouped.le_precedence (h : g.Grouped) (hp : g.Binds p) :
    ∀ x ∈ g.others, p ≤ x.1.precedence := by
  induction g generalizing p with
  | operand n => exact fun x hx => absurd hx List.not_mem_nil
  | binary left op right ihl ihr =>
    obtain ⟨hleft, hright, hgl, hgr⟩ := h
    have hop : p ≤ op.precedence := hp
    intro x hx
    rcases List.mem_append.1 hx with hx | hx
    · exact ihl hgl (hleft.mono hop) x hx
    · rcases List.mem_cons.1 hx with rfl | hx
      · exact hop
      · exact ihr hgr (hright.mono (Nat.le_succ_of_le hop)) x hx

/-- Two groupings of one chain have the same operator on top. If one had it earlier,
its operator would be to the left of the other's and the other's to its right. -/
theorem Grouped.left_eq {left left' right right' : Grouping} {op op' : Link}
    (h : (binary left op right).Grouped) (h' : (binary left' op' right').Grouped)
    (he : (binary left op right).others = (binary left' op' right').others) :
    left.others = left'.others := by
  -- whichever comes first, what is between them is the first of them and more
  have hbetween {l l' r r' : Grouping} {o o' : Link} {between : List (Link × Node)}
      (h : (binary l o r).Grouped) (h' : (binary l' o' r').Grouped)
      (hl : l'.others = l.others ++ between)
      (hr : (o, r.first) :: r.others = between ++ (o', r'.first) :: r'.others) :
      between = [] := by
    cases between with
    | nil => rfl
    | cons x more =>
      obtain ⟨rfl, hmore⟩ := List.cons.inj hr
      have hlow : o'.precedence ≤ o.precedence :=
        h'.2.2.1.le_precedence h'.1 (o, r.first) (hl ▸ by simp)
      have hhigh : o.precedence + 1 ≤ o'.precedence :=
        h.2.2.2.le_precedence h.2.1 (o', r'.first) (hmore ▸ by simp)
      omega
  rcases List.append_eq_append_iff.1 he with ⟨between, hl, hr⟩ | ⟨between, hl, hr⟩
  · rw [hl, hbetween h h' hl hr, List.append_nil]
  · rw [hl, hbetween h' h hl hr, List.append_nil]

/-- A chain has one grouping. -/
theorem Over.unique {first : Node} {others : List (Link × Node)} (h : g.Over first others)
    (h' : g'.Over first others) : g' = g := by
  induction g generalizing first others g' with
  | operand n =>
    have hnone : g'.others = [] := h'.others_eq.trans h.others_eq.symm
    cases g' with
    | operand n' => rw [show n' = n from h'.first_eq.trans h.first_eq.symm]
    | binary left' op' right' => simp [Grouping.others] at hnone
  | binary left op right ihl ihr =>
    cases g' with
    | operand n' =>
      have hnone : (binary left op right).others = [] := h.others_eq.trans h'.others_eq.symm
      simp [Grouping.others] at hnone
    | binary left' op' right' =>
      have he := h.others_eq.trans h'.others_eq.symm
      have hleft := h.grouped.left_eq h'.grouped he
      have hrest := he
      rw [Grouping.others, Grouping.others, hleft, List.append_cancel_left_eq,
        List.cons.injEq, Prod.mk.injEq] at hrest
      obtain ⟨⟨rfl, hfirst⟩, hright⟩ := hrest
      obtain ⟨-, -, hgl, hgr⟩ := h.grouped
      obtain ⟨-, -, hgl', hgr'⟩ := h'.grouped
      have hlfirst : left'.first = left.first := h'.first_eq.trans h.first_eq.symm
      rw [ihl ⟨rfl, rfl, hgl⟩ ⟨hlfirst, hleft.symm, hgl'⟩,
        ihr ⟨rfl, rfl, hgr⟩ ⟨hfirst.symm, hright.symm, hgr'⟩]

end Grouping

-- ================================================================== chains

/-- Whether operators, each with an operand behind it, are read from the front of some
tokens and leave others. -/
inductive Links (stop : Span) : List Token → List (Link × Node) → List Token → Prop
  | done (rest : List Token) : Links stop rest [] rest
  | more {op : Link} {e : Node} {ts us rest : List Token} {others : List (Link × Node)}
      {h : us.length < ts.length} : postfixExpr stop ts = .ok ⟨e, us, h⟩ →
      Links stop us others rest → Links stop (op.token :: ts) ((op, e) :: others) rest

/-- Whether an operand and operators, each with an operand behind it, are read from the
front of some tokens and leave others, which do not begin with an operator. -/
structure Chain (stop : Span) (ts : List Token) (first : Node) (others : List (Link × Node))
    (rest : List Token) : Prop where
  reads : ∃ us h, postfixExpr stop ts = .ok ⟨first, us, h⟩ ∧ Links stop us others rest
  ends : Heads (precedence? · = none) rest

variable {stop : Span} {ts us rest rest' : List Token} {first first' n : Node}
  {others others' : List (Link × Node)}

theorem Links.append (h : Links stop ts others us) (h' : Links stop us others' rest) :
    Links stop ts (others ++ others') rest := by
  induction h with
  | done rest => exact h'
  | more hoperand _ ih => exact .more hoperand (ih h')

/-- From some tokens on there is one chain. -/
theorem Links.unique (h : Links stop us others rest) (hends : Heads (precedence? · = none) rest)
    (h' : Links stop us others' rest') (hends' : Heads (precedence? · = none) rest') :
    others = others' ∧ rest = rest' := by
  -- a chain goes on where an operator comes
  have hgoes {op : Link} {ts : List Token}
      (hends : Heads (precedence? · = none) (op.token :: ts)) : False := by
    have hnone : precedence? op.token.kind = none := hends op.token rfl
    rw [op.precedence?_kind] at hnone
    cases hnone
  induction h generalizing others' with
  | done rest =>
    cases h' with
    | done => exact ⟨rfl, rfl⟩
    | more => exact (hgoes hends).elim
  | @more op e ts us rest others hlt hoperand _ ih =>
    generalize hts : op.token :: ts = whole at h'
    cases h' with
    | done =>
      rw [← hts] at hends'
      exact (hgoes hends').elim
    | @more op' e' ts' us' rest' others' hlt' hoperand' hlinks' =>
      obtain ⟨htoken, rfl⟩ := List.cons.inj hts
      rw [hoperand] at hoperand'
      cases hoperand'
      obtain ⟨rfl, rfl⟩ := ih hends hlinks'
      rw [Link.eq_of_token htoken]
      exact ⟨rfl, rfl⟩

theorem Chain.unique (h : Chain stop ts first others rest)
    (h' : Chain stop ts first' others' rest') :
    first = first' ∧ others = others' ∧ rest = rest' := by
  obtain ⟨us, hlt, hfirst, hlinks⟩ := h.reads
  obtain ⟨us', hlt', hfirst', hlinks'⟩ := h'.reads
  rw [hfirst] at hfirst'
  cases hfirst'
  exact ⟨rfl, hlinks.unique h.ends hlinks' h'.ends⟩

-- ================================================================= climbing

mutual

/-- An operand and operators that bind at least this tightly are a grouping of them,
and one that binds less tightly may follow. -/
theorem binary_group (stop : Span) (least : Nat) (ts : List Token) :
    Reads (binary stop least ts) fun n rest => ∃ g : Grouping, g.node = n ∧ g.Grouped ∧
      g.Binds least ∧ Below least rest ∧
      ∃ us h, postfixExpr stop ts = .ok ⟨g.first, us, h⟩ ∧ Links stop us g.others rest := by
  rw [binary]
  have hoperand : Reads (postfixExpr stop ts) fun e us => ∃ h,
      postfixExpr stop ts = .ok ⟨e, us, h⟩ := fun e us h he => ⟨h, he⟩
  refine hoperand.bind fun e us h ⟨_, he⟩ n rest hlt hn => ?_
  obtain ⟨g, hnode, hgrouped, hbinds, hbelow, hfirst, more, hothers, hlinks⟩ :=
    operators_group stop least ts.length (.operand e) us h trivial trivial
      (fun t ht p hp => trivial) n rest hlt hn
  rw [Grouping.first] at hfirst
  rw [Grouping.others, List.nil_append] at hothers
  exact ⟨g, hnode, hgrouped, hbinds, hbelow, us, h, hfirst ▸ he, hothers ▸ hlinks⟩
termination_by 8 * ts.length + 2

/-- Operators that bind at least this tightly are put on top of what was read before,
if the one in front does not bind more tightly than that. -/
theorem operators_group (stop : Span) (least bound : Nat) (left : Grouping) :
    ∀ (ts : List Token) (h : ts.length < bound), left.Grouped → left.Binds least →
      Heads (fun k => ∀ p ∈ precedence? k, left.Binds p) ts →
      Reads (operators stop least bound left.node ts h) fun n rest => ∃ g : Grouping,
        g.node = n ∧ g.Grouped ∧ g.Binds least ∧ Below least rest ∧ g.first = left.first ∧
        ∃ more, g.others = left.others ++ more ∧ Links stop ts more rest
  | [], h, hgrouped, hbinds, _ => by
    rw [operators]
    exact .ok ⟨left, rfl, hgrouped, hbinds, .nil, rfl, [], (List.append_nil _).symm, .done _⟩
  | t :: rest, h, hgrouped, hbinds, hnext => by
    have hstays (hbelow : Below least (t :: rest)) :
        Reads (.ok ⟨left.node, t :: rest, h⟩ : Except ParseError (Taken bound Node))
          fun n rest' => ∃ g : Grouping, g.node = n ∧ g.Grouped ∧ g.Binds least ∧
            Below least rest' ∧ g.first = left.first ∧
            ∃ more, g.others = left.others ++ more ∧ Links stop (t :: rest) more rest' :=
      .ok ⟨left, rfl, hgrouped, hbinds, hbelow, rfl, [], (List.append_nil _).symm, .done _⟩
    rw [operators]
    split
    · rename_i hnone
      refine hstays (.cons fun p hp => ?_)
      rw [hnone] at hp
      cases hp
    · rename_i p hp
      split
      · rename_i hleast
        obtain ⟨op, rfl, rfl⟩ := Link.exists_of_precedence? hp
        refine (binary_group stop (op.precedence + 1) rest).bind fun right rest' h' hright => ?_
        obtain ⟨r, rfl, hrgrouped, hrbinds, hrbelow, us, hlt, hoperand, hrlinks⟩ := hright
        have hleft : left.Binds op.precedence := hnext op.token rfl _ hp
        -- what follows the right operand binds no more tightly than the operator before it
        have hnext' : Heads (fun k => ∀ p ∈ precedence? k,
            (Grouping.binary left op r).Binds p) rest' :=
          hrbelow.mono fun k hk p hp => Nat.le_of_lt_succ (hk p hp)
        intro n rest'' hlt' hn
        obtain ⟨g, hnode, hg, hgbinds, hgbelow, hfirst, more, hothers, hlinks⟩ :=
          operators_group stop least bound (.binary left op r) rest' _
            ⟨hleft, hrbinds, hgrouped, hrgrouped⟩ hleast hnext' n rest'' hlt' hn
        refine ⟨g, hnode, hg, hgbinds, hgbelow, hfirst, (op, r.first) :: (r.others ++ more), ?_,
          .more hoperand (hrlinks.append hlinks)⟩
        rw [hothers, Grouping.others, List.append_assoc, List.cons_append]
      · rename_i hleast
        refine hstays (.cons fun q hq => ?_)
        rw [hp] at hq
        cases hq
        exact Nat.not_le.1 hleast
termination_by ts => 8 * ts.length

end

/-- Where a chain goes on operators are read, up to one of the chain or to its end. -/
theorem Links.operators_isOk (hlinks : Links stop us others rest)
    (hends : Heads (precedence? · = none) rest) (least : Nat) {bound : Nat} (left : Node)
    (h : us.length < bound) :
    ∃ n ts h' others', operators stop least bound left us h = .ok ⟨n, ts, h'⟩ ∧
      Links stop ts others' rest ∧ others'.length ≤ others.length := by
  induction hlen : others.length using Nat.strongRecOn
    generalizing us others least bound left with
  | ind k ih =>
    subst hlen
    have hstays (hbelow : Below least us) : ∃ n ts h' others',
        operators stop least bound left us h = .ok ⟨n, ts, h'⟩ ∧
          Links stop ts others' rest ∧ others'.length ≤ others.length :=
      ⟨left, us, h, others, operators_below h hbelow, hlinks, Nat.le_refl _⟩
    cases hlinks with
    | done =>
      refine hstays (hends.mono fun k hk p hp => ?_)
      rw [hk] at hp
      cases hp
    | @more op e ts us _ others hlt hoperand hlinks =>
      have hp := op.precedence?_kind
      by_cases hleast : least ≤ op.precedence
      · obtain ⟨right, us', hlt', others', hright, hlinks', hle'⟩ :=
          ih others.length (Nat.lt_succ_self _) hlinks (op.precedence + 1) e hlt rfl
        have hbinary : binary stop (op.precedence + 1) ts = .ok ⟨right, us', hlt'⟩ := by
          rw [binary, hoperand]
          exact hright
        rw [operators_take h hp hleast hbinary]
        obtain ⟨n, vs, hlt'', others'', hn, hlinks'', hle''⟩ :=
          ih others'.length (Nat.lt_succ_of_le hle') hlinks' least _
            (Nat.lt_trans (Nat.lt_succ_of_lt hlt') h) rfl
        exact ⟨n, vs, hlt'', others'', hn, hlinks'',
          Nat.le_trans hle'' (Nat.le_succ_of_le hle')⟩
      · refine hstays (.cons fun q hq => ?_)
        rw [hp] at hq
        cases hq
        exact Nat.not_le.1 hleast

/-- A whole chain is read. -/
theorem Chain.isOk (h : Chain stop ts first others rest) :
    ∃ n us h', expression stop ts = .ok ⟨n, us, h'⟩ := by
  obtain ⟨us, hlt, hfirst, hlinks⟩ := h.reads
  obtain ⟨n, vs, hlt', others', hn, -⟩ := hlinks.operators_isOk h.ends 0 first hlt
  refine ⟨n, vs, hlt', ?_⟩
  rw [expression, binary, hfirst]
  exact hn

/-- What is read as an expression is a chain, under its one grouping. -/
theorem expression_group {h : rest.length < ts.length}
    (hread : expression stop ts = .ok ⟨n, rest, h⟩) :
    ∃ g : Grouping, g.node = n ∧ g.Grouped ∧ Chain stop ts g.first g.others rest := by
  rw [expression] at hread
  obtain ⟨g, hnode, hgrouped, -, hbelow, us, hlt, hfirst, hlinks⟩ :=
    binary_group stop 0 ts n rest h hread
  refine ⟨g, hnode, hgrouped, ⟨us, hlt, hfirst, hlinks⟩, hbelow.mono fun k hk => ?_⟩
  exact Option.eq_none_iff_forall_not_mem.2 fun p hp => Nat.not_lt_zero p (hk p hp)

/-- An expression is read from some tokens just if they begin with a chain, an operand
and operators with an operand behind each, that ends where no operator comes. Its node is
that of the only grouping of the chain in its order in which operators group as they
bind. -/
theorem expressions_are_grouped_chains (stop : Span) (ts rest : List Token) (n : Node) :
    (∃ h, expression stop ts = .ok ⟨n, rest, h⟩) ↔
      ∃ first others, Chain stop ts first others rest ∧
        ∃ g : Grouping, g.Over first others ∧ n = g.node ∧
          ∀ g' : Grouping, g'.Over first others → g' = g := by
  constructor
  · rintro ⟨h, hread⟩
    obtain ⟨g, hnode, hgrouped, hchain⟩ := expression_group hread
    have hover : g.Over g.first g.others := ⟨rfl, rfl, hgrouped⟩
    exact ⟨g.first, g.others, hchain, g, hover, hnode.symm, fun g' hg' => hover.unique hg'⟩
  · rintro ⟨first, others, hchain, g, hover, rfl, -⟩
    obtain ⟨n, rest', h, hread⟩ := hchain.isOk
    obtain ⟨g', hnode, hgrouped, hchain'⟩ := expression_group hread
    obtain ⟨rfl, rfl, rfl⟩ := hchain.unique hchain'
    have hover' : g'.Over g'.first g'.others := ⟨rfl, rfl, hgrouped⟩
    obtain rfl := hover'.unique hover
    subst hnode
    exact ⟨h, hread⟩

end SamScript
