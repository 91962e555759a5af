/-
Parsing what more tokens come behind. No production looks further than one token
beyond those it takes, so what it reads of some tokens it reads of them with more
behind, if it left any (`Onward`). Lists and blocks end with a token of their own and
need leave none. A statement that took the last token needs it to be a semicolon:
anything else might go on into what follows. So tokens that end in a semicolon are
parsed as before whatever comes behind them, and then the others (`sections_onward`).
-/
import SamScript.Proofs.Token.Behind
import SamScript.Proofs.Tree.Endings
import SamScript.Proofs.Tree.Lockstep

namespace SamScript.Parser

open Node

variable {α β : Type} {m n k l : Nat}

-- ================================================================ readers

/-- Whether a reader that returns something and leaves what `p` allows has another
return the same and leave more tokens behind the ones left. -/
def Onward (p : List Token → Prop) (more : List Token) (x : Except ParseError (Taken m α))
    (y : Except ParseError (Taken n α)) : Prop :=
  Reads x fun value rest => p rest → ∃ h, y = .ok ⟨value, rest ++ more, h⟩

/-- Whatever is left. -/
def Any : List Token → Prop :=
  fun _ => True

/-- Whether tokens are left. -/
def Left : List Token → Prop :=
  fun rest => rest ≠ []

/-- Whether the tokens left show where the ones given end: either some are left, or
the last of those given was a semicolon. -/
def Sealed (ts : List Token) : List Token → Prop :=
  fun rest => rest ≠ [] ∨ Closed ts

/-- Nothing is read where there is nothing. -/
theorem Reads.empty {x : Except ParseError (Taken 0 α)} {post : α → List Token → Prop} :
    Reads x post :=
  fun _ rest h => absurd h (Nat.not_lt_zero rest.length)

theorem Reads.bind_empty {x : Except ParseError (Taken 0 α)}
    {f : Taken 0 α → Except ParseError (Taken n β)} {post : β → List Token → Prop} :
    Reads (x >>= f) post := by
  rcases x with e | ⟨value, rest, h⟩
  · exact .error e
  · exact absurd h (Nat.not_lt_zero rest.length)

namespace Onward

variable {p q : List Token → Prop} {more rest : List Token} {value : α}
  {x : Except ParseError (Taken m α)} {y : Except ParseError (Taken n α)}
  {f : Taken m α → Except ParseError (Taken k β)} {g : Taken n α → Except ParseError (Taken l β)}

theorem ok {h : rest.length < m} {h' : (rest ++ more).length < n} :
    Onward p more (.ok ⟨value, rest, h⟩) (.ok ⟨value, rest ++ more, h'⟩) :=
  Reads.ok fun _ => ⟨h', rfl⟩

/-- Nothing is said of a reader that leaves nothing, where something has to be
left. -/
theorem ended {h : [].length < m} (hp : ¬ p []) : Onward p more (.ok ⟨value, [], h⟩) y :=
  Reads.ok fun hleft => absurd hleft hp

theorem mono (h : Onward p more x y) (hq : ∀ rest, q rest → p rest) : Onward q more x y :=
  fun value rest hlt hx hleft => h value rest hlt hx (hq rest hleft)

theorem bind (hx : Onward q more x y)
    (hq : ∀ v rest h, x = .ok ⟨v, rest, h⟩ → Reads (f ⟨v, rest, h⟩) fun _ rest' => p rest' → q rest)
    (hf : ∀ v rest h h', x = .ok ⟨v, rest, h⟩ → q rest →
      Onward p more (f ⟨v, rest, h⟩) (g ⟨v, rest ++ more, h'⟩)) :
    Onward p more (x >>= f) (y >>= g) := by
  rcases x with e | ⟨v, rest, h⟩
  · exact Reads.error e
  · intro value rest' hlt he hleft
    have hmiddle := hq v rest h rfl value rest' hlt he hleft
    obtain ⟨h', rfl⟩ := hx v rest h rfl hmiddle
    exact hf v rest h h' rfl hmiddle value rest' hlt he hleft

/-- A reader that needs nothing left, and another. -/
theorem bindAny (hx : Onward Any more x y)
    (hf : ∀ v rest h h', x = .ok ⟨v, rest, h⟩ →
      Onward p more (f ⟨v, rest, h⟩) (g ⟨v, rest ++ more, h'⟩)) :
    Onward p more (x >>= f) (y >>= g) :=
  hx.bind (fun _ _ _ _ _ _ _ _ _ => trivial) fun v rest h h' he _ => hf v rest h h' he

/-- A reader that needs something left, and another that cannot do without it. -/
theorem bindLeft (hx : Onward Left more x y)
    (hend : ∀ v h, x = .ok ⟨v, [], h⟩ → Reads (f ⟨v, [], h⟩) fun _ rest => ¬ p rest)
    (hf : ∀ v t rest h h', Onward p more (f ⟨v, t :: rest, h⟩) (g ⟨v, t :: (rest ++ more), h'⟩)) :
    Onward p more (x >>= f) (y >>= g) := by
  refine hx.bind (fun v rest h he => ?_) fun v rest h h' _ hleft => ?_
  · intro value rest' hlt hread hp hnone
    subst hnone
    exact hend v h he value rest' hlt hread hp
  · cases rest with
    | nil => exact absurd rfl hleft
    | cons t rest => exact hf v t rest h h'

end Onward

theorem not_left : ¬ Left [] :=
  fun h => h rfl

-- ============================================================== semicolons

section

variable {ts us more : List Token}

theorem Closed.of_append (h : Closed (ts ++ us)) : Closed us := by
  intro t ht
  refine h t ?_
  rw [List.getLast?_append, Option.mem_def.1 ht]
  rfl

theorem not_sealed (ts : List Token) (h : ¬ Closed us) : ¬ Sealed (ts ++ us) [] := by
  rintro (hleft | hclosed)
  · exact hleft rfl
  · exact h hclosed.of_append

/-- Tokens that spell a phrase which closes with no semicolon do not end in one. -/
theorem not_closed {p : Phrase} {ns : List Node} (h : Spells p ts ns) (hp : ¬ p.Closes)
    (hne : ts ≠ []) : ¬ Closed ts := by
  intro hclosed
  obtain ⟨front, t, rfl⟩ : ∃ front t, ts = front ++ [t] :=
    ⟨ts.dropLast, ts.getLast hne, (List.dropLast_append_getLast hne).symm⟩
  have hk : t.kind = .semicolon := hclosed t (by simp)
  -- a second semicolon could not stand behind the first
  have hall : Punctuated (front ++ [t] ++ [t]) := h.punctuates [t] (fun hc => absurd hc hp)
    ⟨fun _ => .nil, trivial⟩
  rw [List.append_assoc] at hall
  have hbegins : t.kind ∈ beginnings := hall.heads hk t rfl
  rw [hk] at hbegins
  exact absurd hbegins (by decide)

/-- A reader of such a phrase that took all it was given did not end in a
semicolon. -/
theorem Reads.not_closed {p : Phrase} {x : Except ParseError (Taken ts.length α)}
    {nodes : α → List Node} (hreads : Reads x fun v => Front p ts (nodes v)) (hp : ¬ p.Closes)
    {v : α} {h : [].length < ts.length} (hx : x = .ok ⟨v, [], h⟩) : ¬ Closed ts := by
  obtain ⟨used, hused, hs⟩ := hreads v [] h hx
  rw [List.append_nil] at hused
  subst hused
  exact Parser.not_closed hs hp (List.length_pos_iff.1 h)

end

-- ============================================================ single tokens

section

variable {stop stop' : Span} {ts us rest more : List Token} {p : List Token → Prop}

theorem expect_onward (kind : TokenKind) (expected : Expected) (hus : us = ts ++ more) :
    Onward p more (expect stop kind expected ts) (expect stop' kind expected us) := by
  cases ts with
  | nil => exact Reads.empty
  | cons t rest =>
    subst hus
    by_cases hk : t.kind = kind
    · have hexpect (stop : Span) (r : List Token) :
          expect stop kind expected (t :: r) = .ok ⟨t, r, Nat.lt_succ_self _⟩ := by
        rw [expect, if_pos hk]
      rw [List.cons_append, hexpect, hexpect]
      exact .ok
    · rw [expect, if_neg hk]
      exact Reads.error _

theorem lastBefore_onward (ts rest more : List Token) :
    lastBefore (ts ++ more) (rest ++ more) = lastBefore ts rest := by
  unfold lastBefore
  rw [List.length_append, List.length_append, Nat.add_sub_add_right,
    List.take_append_of_le_length (Nat.sub_le _ _)]

/-- Where something is left, the end of a statement is found there. -/
theorem finish_onward {t : Token} {h : (t :: rest).length < ts.length}
    {h' : (t :: (rest ++ more)).length < us.length} (hus : us = ts ++ more) :
    Onward p more (finish stop ts (t :: rest) h) (finish stop' us (t :: (rest ++ more)) h') := by
  subst hus
  have hlast := lastBefore_onward ts (t :: rest) more
  rw [List.cons_append] at hlast
  unfold finish
  dsimp only
  rw [hlast]
  split
  · exact .ok
  · split
    · exact .ok
    · exact Reads.error _

-- =============================================================== lookahead

theorem lambdaTail?_onward {nodes : List Node} (h : lambdaTail? ts = some (nodes, rest))
    (more : List Token) : lambdaTail? (ts ++ more) = some (nodes, rest ++ more) := by
  fun_induction lambdaTail? ts generalizing nodes rest with
  | case1 a b r hk ih =>
    obtain ⟨⟨ns, r'⟩, hp, he⟩ := Option.map_eq_some_iff.1 h
    cases he
    rw [List.cons_append, List.cons_append, lambdaTail?, if_pos hk, ih hp]
    rfl
  | case2 a b r hcomma hk =>
    cases h
    rw [List.cons_append, List.cons_append, lambdaTail?, if_neg hcomma, if_pos hk]
  | case3 => cases h
  | case4 => cases h

theorem lambdaHead?_onward {nodes : List Node} (h : lambdaHead? ts = some (nodes, rest))
    (more : List Token) : lambdaHead? (ts ++ more) = some (nodes, rest ++ more) := by
  cases ts with
  | nil => cases h
  | cons t ts =>
    unfold lambdaHead? at h ⊢
    dsimp only [List.cons_append] at h ⊢
    split
    · rw [if_pos ‹_›] at h
      obtain ⟨⟨ns, r⟩, hp, he⟩ := Option.map_eq_some_iff.1 h
      cases he
      rw [lambdaTail?_onward hp]
      rfl
    · rw [if_neg ‹_›] at h
      split
      · rw [if_pos ‹_›] at h
        exact lambdaTail?_onward h more
      · rw [if_neg ‹_›] at h
        cases h

/-- A name with nothing behind it that goes on with it. -/
theorem expression_name {t : Token} (hk : t.kind = .identifier) (hrest : Stopped 0 rest) :
    expression stop (t :: rest) =
      .ok ⟨.leaf .identifier t.span, rest, Nat.lt_succ_self _⟩ := by
  have hprimary : primary stop (t :: rest) =
      .ok ⟨.leaf .identifier t.span, rest, Nat.lt_succ_self _⟩ := by
    rw [primary.eq_def]
    dsimp only
    rw [hk]
  rw [expression, binary, postfixExpr, hprimary]
  dsimp only [bind, Except.bind]
  rw [suffixes_stopped _ hrest]
  dsimp only
  rw [operators_stopped _ hrest]

/-- What is no head of a lambda, because a parenthesis closes behind an expression and
no arrow follows, is none whatever comes behind. -/
theorem lambdaHead?_group {inner : Node} {c : Token} {h : (c :: rest).length < ts.length}
    (hnone : lambdaHead? ts = none) (hinner : expression stop ts = .ok ⟨inner, c :: rest, h⟩)
    (hc : c.kind = .rparen) (hleft : rest ≠ []) (more : List Token) :
    lambdaHead? (ts ++ more) = none := by
  cases ts with
  | nil => exact absurd h (Nat.not_lt_zero _)
  | cons t ts =>
    unfold lambdaHead? at hnone ⊢
    dsimp only [List.cons_append] at hnone ⊢
    by_cases hname : t.kind = .identifier
    · rw [if_pos hname, Option.map_eq_none_iff] at hnone ⊢
      cases ts with
      | nil =>
        simp only [List.length_cons, List.length_nil] at h
        omega
      | cons a ts =>
        by_cases ha : a.kind = .comma ∨ a.kind = .rparen
        · -- the expression is the name alone
          have hcloser : a.kind ∈ closers := by
            rcases ha with ha | ha <;> rw [ha] <;> decide
          rw [expression_name hname (stopped_closer hcloser)] at hinner
          cases hinner
          obtain ⟨b, rest, rfl⟩ := List.exists_cons_of_ne_nil hleft
          have hcomma : ¬ (c.kind = .comma ∧ b.kind = .identifier) := by
            rw [hc]
            exact fun he => absurd he.1 (by decide)
          have harrow : ¬ (c.kind = .rparen ∧ b.kind = .doubleArrow) := by
            intro he
            rw [lambdaTail?, if_neg hcomma, if_pos he] at hnone
            cases hnone
          rw [List.cons_append, List.cons_append, lambdaTail?, if_neg hcomma, if_neg harrow]
        · rw [not_or] at ha
          exact lambdaTail?_eq_none (.cons ha)
    · rw [if_neg hname] at hnone ⊢
      by_cases hparen : t.kind = .rparen
      · rw [expression, binary, postfixExpr, primary.eq_def] at hinner
        dsimp only at hinner
        rw [hparen] at hinner
        cases hinner
      · rw [if_neg hparen]

end

-- ============================================================ productions

mutual

theorem expression_onward (stop stop' : Span) {more : List Token} (ts us : List Token)
    (hus : us = ts ++ more) :
    Onward Left more (expression stop ts) (expression stop' us) := by
  rw [expression, expression]
  exact binary_onward stop stop' 0 ts us hus
termination_by 8 * ts.length + 3

theorem binary_onward (stop stop' : Span) (least : Nat) {more : List Token} (ts us : List Token)
    (hus : us = ts ++ more) :
    Onward Left more (binary stop least ts) (binary stop' least us) := by
  rw [binary, binary]
  refine (postfixExpr_onward stop stop' ts us hus).bindLeft (fun left h _ => ?_)
    fun left t rest h h' => ?_
  · dsimp only
    rw [operators]
    exact .ok not_left
  · have hlt : rest.length + 1 < ts.length := h
    exact operators_onward stop stop' least _ _ left (t :: rest) _ h h' rfl
termination_by 8 * ts.length + 2

theorem operators_onward (stop stop' : Span) (least bound bound' : Nat) (left : Node)
    {more : List Token} : ∀ (ts us : List Token) (h : ts.length < bound) (h' : us.length < bound'),
      us = ts ++ more → Onward Left more (operators stop least bound left ts h)
        (operators stop' least bound' left us h')
  | [], us, h, h', _ => by
    rw [operators]
    exact .ended not_left
  | op :: rest, us, h, h', hus => by
    obtain rfl : us = op :: (rest ++ more) := hus
    rw [operators, operators]
    cases hp : precedence? op.kind with
    | none => exact .ok
    | some p =>
      dsimp only
      split
      · refine (binary_onward stop stop' (p + 1) rest _ rfl).bindLeft (fun right hr _ => ?_)
          fun right t rest' hr hr' => ?_
        · dsimp only
          rw [operators]
          exact .ok not_left
        · have hlt : rest'.length + 1 < rest.length := hr
          exact operators_onward stop stop' least _ _ _ (t :: rest') _ _ _ rfl
      · exact .ok
termination_by ts => 8 * ts.length

theorem postfixExpr_onward (stop stop' : Span) {more : List Token} (ts us : List Token)
    (hus : us = ts ++ more) :
    Onward Left more (postfixExpr stop ts) (postfixExpr stop' us) := by
  rw [postfixExpr, postfixExpr]
  refine (primary_onward stop stop' ts us hus).bindLeft (fun first h _ => ?_)
    fun first t rest h h' => ?_
  · dsimp only
    rw [suffixes]
    exact .ok not_left
  · have hlt : rest.length + 1 < ts.length := h
    exact suffixes_onward stop stop' _ _ first (t :: rest) _ h h' rfl
termination_by 8 * ts.length + 1

theorem suffixes_onward (stop stop' : Span) (bound bound' : Nat) (before : Node)
    {more : List Token} : ∀ (ts us : List Token) (h : ts.length < bound) (h' : us.length < bound'),
      us = ts ++ more → Onward Left more (suffixes stop bound before ts h)
        (suffixes stop' bound' before us h')
  | [], us, h, h', _ => by
    rw [suffixes]
    exact .ended not_left
  | t :: rest, us, h, h', hus => by
    obtain rfl : us = t :: (rest ++ more) := hus
    rw [suffixes, suffixes]
    split
    · refine (listed_onward stop stop' (some .arguments) .rparen .closeParen rest _ rfl).bindAny
        fun items rest' hr hr' _ => ?_
      exact suffixes_onward stop stop' _ _ _ rest' _ _ _ rfl
    · split
      · refine (expect_onward .identifier .attributeName rfl).bindAny
          fun name rest' hr hr' hname => ?_
        have hlt : rest'.length < rest.length := hr
        exact suffixes_onward stop stop' _ _ _ rest' _ _ _ rfl
      · exact .ok
termination_by ts => 8 * ts.length

theorem primary_onward (stop stop' : Span) {more : List Token} : ∀ ts us : List Token,
    us = ts ++ more → Onward Left more (primary stop ts) (primary stop' us)
  | [], us, _ => Reads.empty
  | t :: rest, us, hus => by
    obtain rfl : us = t :: (rest ++ more) := hus
    rw [primary.eq_def, primary.eq_def stop']
    dsimp only
    cases hk : t.kind with
    | number => exact .ok
    | minus =>
      cases rest with
      | nil => exact Reads.error _
      | cons n after =>
        dsimp only [List.cons_append]
        split
        · exact .ok
        · exact Reads.error _
    | string => exact .ok
    | identifier => exact .ok
    | lparen =>
      dsimp only
      split
      · rename_i head after hl
        have := length_of_lambdaHead? hl
        have hl' := lambdaHead?_onward hl more
        split
        · rename_i head' after' hfound
          rw [hl'] at hfound
          cases hfound
          refine (block_onward stop stop' after _ rfl).bindAny fun body rest' hr hr' _ => ?_
          exact .ok
        · rename_i hnone
          rw [hl'] at hnone
          cases hnone
      · rename_i hl
        split
        · -- a head that the tokens behind complete: then nothing was left
          rename_i head' after' hfound
          have hself : Reads (expression stop rest) fun inner rest' =>
              ∃ h, expression stop rest = .ok ⟨inner, rest', h⟩ := fun _ _ h he => ⟨h, he⟩
          refine Reads.bind hself fun inner rest' hr hinner => ?_
          obtain ⟨hr', hinner⟩ := hinner
          refine (expect_reads stop .rparen .closeParen rest').bind fun c after hr'' hc => ?_
          refine .ok fun hleft => ?_
          obtain ⟨rfl, hc⟩ := hc
          rw [lambdaHead?_group hl hinner hc hleft] at hfound
          cases hfound
        · refine (expression_onward stop stop' rest _ rfl).bindLeft
            (fun inner hr _ => Reads.bind_empty) fun inner u rest' hr hr' => ?_
          refine (expect_onward .rparen .closeParen rfl).bindAny fun c after hc hc' _ => ?_
          exact .ok
    | lbracket =>
      refine (listed_onward stop stop' none .rbracket .closeBracket rest _ rfl).bindAny
        fun items rest' hr hr' _ => ?_
      exact .ok
    | if_ =>
      refine (conditional_onward stop stop' t rest _ rfl).bindLeft (fun n hr _ => ?_)
        fun n u rest' hr hr' => ?_
      · exact .ok not_left
      · exact .ok
    | _ => exact Reads.error _
termination_by ts => 8 * ts.length

theorem listed_onward (stop stop' : Span) (field : Option Field) (close : TokenKind)
    (expected : Expected) {more : List Token} : ∀ ts us : List Token, us = ts ++ more →
      Onward Any more (listed stop field close expected ts) (listed stop' field close expected us)
  | [], us, _ => Reads.empty
  | t :: rest, us, hus => by
    have hitems := items_onward stop stop' field close expected (t :: rest) us hus
    obtain rfl : us = t :: (rest ++ more) := hus
    rw [listed, listed]
    split
    · exact .ok
    · exact hitems
termination_by ts => 8 * ts.length + 5

theorem items_onward (stop stop' : Span) (field : Option Field) (close : TokenKind)
    (expected : Expected) {more : List Token} (ts us : List Token) (hus : us = ts ++ more) :
    Onward Any more (items stop field close expected ts) (items stop' field close expected us) := by
  rw [items, items]
  refine (expression_onward stop stop' ts us hus).bindLeft (fun item h _ => ?_)
    fun item t rest h h' => ?_
  · exact .error _
  · have hlt : rest.length < ts.length := Nat.lt_of_succ_lt h
    dsimp only
    split
    · refine (listed_onward stop stop' field close expected rest _ rfl).bindAny
        fun nodes rest' hr hr' _ => ?_
      exact .ok
    · split
      · exact .ok
      · exact Reads.error _
termination_by 8 * ts.length + 4

theorem conditional_onward (stop stop' : Span) (t : Token) {more : List Token}
    (ts us : List Token) (hus : us = ts ++ more) :
    Onward Left more (conditional stop t ts) (conditional stop' t us) := by
  rw [conditional, conditional]
  refine (expect_onward .lparen .openAfterIf hus).bindAny fun o rest₁ h₁ h₁' _ => ?_
  refine (expression_onward stop stop' rest₁ _ rfl).bindLeft
    (fun condition h _ => Reads.bind_empty) fun condition u rest₂ h₂ h₂' => ?_
  refine (expect_onward .rparen .closeParen rfl).bindAny fun c rest₃ h₃ h₃' _ => ?_
  have hlt : rest₂.length + 1 < rest₁.length := h₂
  have hlt' : rest₃.length < rest₂.length + 1 := h₃
  refine (block_onward stop stop' rest₃ _ rfl).bindAny fun consequence rest₄ h₄ h₄' _ => ?_
  refine (alternative?_onward stop stop' _ _ rest₄ _ _ _ rfl).bindLeft (fun alternative h _ => ?_)
    fun alternative v rest₅ h₅ h₅' => ?_
  · exact .ok not_left
  · exact .ok
termination_by 8 * ts.length + 1

theorem alternative?_onward (stop stop' : Span) (bound bound' : Nat) {more : List Token} :
    ∀ (ts us : List Token) (h : ts.length < bound) (h' : us.length < bound'), us = ts ++ more →
      Onward Left more (alternative? stop bound ts h) (alternative? stop' bound' us h')
  | [], us, h, h', _ => by
    rw [alternative?]
    exact .ended not_left
  | [t], us, h, h', hus => by
    obtain rfl : us = t :: more := hus
    by_cases helse : t.kind = .else_
    · rw [alternative?, if_pos helse]
      exact Reads.error _
    · rw [alternative?_stopped h (.cons helse), alternative?_stopped h' (.cons helse)]
      exact .ok
  | t :: i :: after, us, h, h', hus => by
    obtain rfl : us = t :: i :: (after ++ more) := hus
    rw [alternative?, alternative?]
    split
    · split
      · refine (conditional_onward stop stop' i after _ rfl).bindLeft (fun inner hr _ => ?_)
          fun inner u rest hr hr' => ?_
        · exact .ok not_left
        · exact .ok
      · refine (block_onward stop stop' (i :: after) _ rfl).bindAny fun inner rest hr hr' _ => ?_
        exact .ok
    · exact .ok
termination_by ts => 8 * ts.length + 1

theorem block_onward (stop stop' : Span) {more : List Token} (ts us : List Token)
    (hus : us = ts ++ more) : Onward Any more (block stop ts) (block stop' us) := by
  rw [block, block]
  refine (expect_onward .lbrace .openBrace hus).bindAny fun o rest h h' _ => ?_
  refine (blockItems_onward stop stop' rest _ rfl).bindAny fun inner rest' hr hr' _ => ?_
  exact .ok
termination_by 8 * ts.length

theorem blockItems_onward (stop stop' : Span) {more : List Token} : ∀ ts us : List Token,
    us = ts ++ more → Onward Any more (blockItems stop ts) (blockItems stop' us)
  | [], us, _ => Reads.empty
  | t :: rest, us, hus => by
    have hstatement := statement_onward stop stop' (t :: rest) us hus
    obtain rfl : us = t :: (rest ++ more) := hus
    rw [blockItems, blockItems]
    split
    · exact .ok
    · refine (hstatement.mono fun _ => .inl).bindLeft (fun first h _ => ?_)
        fun first u rest₁ h₁ h₁' => ?_
      · exact Reads.bind_empty
      · have hle : rest₁.length + 1 ≤ rest.length := Nat.le_of_lt_succ h₁
        refine (blockItems_onward stop stop' (u :: rest₁) _ rfl).bindAny
          fun nodes rest₂ h₂ h₂' _ => ?_
        exact .ok
termination_by ts => 8 * ts.length + 7

theorem statement_onward (stop stop' : Span) {more : List Token} : ∀ ts us : List Token,
    us = ts ++ more → Onward (Sealed ts) more (statement stop ts) (statement stop' us)
  | [], us, _ => Reads.empty
  | t :: rest, us, hus => by
    have hplain := plainStatement_onward stop stop' (t :: rest) us hus
    obtain rfl : us = t :: (rest ++ more) := hus
    rw [statement.eq_def, statement.eq_def stop']
    dsimp only
    cases hk : t.kind with
    | let_ =>
      dsimp only
      refine (declarators_onward stop stop' rest _ rfl).bindLeft (fun inner h hinner => ?_)
        fun inner u rest₁ h₁ h₁' => ?_
      · have hopen := (declarators_reads stop rest).not_closed not_false hinner
        exact .ok (not_sealed [t] hopen)
      · refine (finish_onward rfl).bindAny fun ending rest₂ h₂ h₂' _ => ?_
        exact .ok
    | return_ =>
      cases rest with
      | nil =>
        refine .ended (not_sealed [] fun hclosed => ?_)
        rw [hclosed t rfl] at hk
        cases hk
      | cons u after =>
        dsimp only [List.cons_append]
        split
        · refine (finish_onward rfl).bindAny fun ending rest₂ h₂ h₂' _ => ?_
          exact .ok
        · refine (expression_onward stop stop' (u :: after) _ rfl).bindLeft
            (fun value h hvalue => ?_) fun value v rest₁ h₁ h₁' => ?_
          · have hopen := (expression_reads stop (u :: after)).not_closed not_false hvalue
            exact .ok (not_sealed [t] hopen)
          · refine (finish_onward rfl).bindAny fun ending rest₂ h₂ h₂' _ => ?_
            exact .ok
    | _ => exact hplain
termination_by ts => 8 * ts.length + 6
decreasing_by
  all_goals
    subst_vars
    try simp only [List.length_cons]
    omega

theorem plainStatement_onward (stop stop' : Span) {more : List Token} : ∀ ts us : List Token,
    us = ts ++ more → Onward (Sealed ts) more (plainStatement stop ts) (plainStatement stop' us)
  | [], us, _ => Reads.empty
  | [t], us, hus => by
    -- a single token is no statement that ends in a semicolon
    intro value rest h he hsealed
    have hnone : rest = [] := List.length_eq_zero_iff.1 (Nat.lt_one_iff.1 h)
    subst hnone
    rcases hsealed with hleft | hclosed
    · exact absurd rfl hleft
    · rw [plainStatement_semicolon (hclosed t rfl)] at he
      cases he
  | t :: u :: rest, us, hus => by
    have hplain := expressionStatement_onward stop stop' (t :: u :: rest) us hus
    obtain rfl : us = t :: u :: (rest ++ more) := hus
    rw [plainStatement, plainStatement]
    split
    · refine (expression_onward stop stop' rest _ rfl).bindLeft (fun value h hvalue => ?_)
        fun value v rest₁ h₁ h₁' => ?_
      · have hopen := (expression_reads stop rest).not_closed not_false hvalue
        exact .ok (not_sealed [t, u] hopen)
      · refine (finish_onward rfl).bindAny fun ending rest₂ h₂ h₂' _ => ?_
        exact .ok
    · exact hplain
termination_by ts => 8 * ts.length + 5

theorem expressionStatement_onward (stop stop' : Span) {more : List Token} (ts us : List Token)
    (hus : us = ts ++ more) : Onward (Sealed ts) more (expressionStatement stop ts)
      (expressionStatement stop' us) := by
  rw [expressionStatement, expressionStatement]
  refine (expression_onward stop stop' ts us hus).bindLeft (fun inner h hinner => ?_)
    fun inner t rest h h' => ?_
  · have hopen := (expression_reads stop ts).not_closed not_false hinner
    exact .ok (not_sealed [] hopen)
  · refine (finish_onward hus).bindAny fun ending rest₂ h₂ h₂' _ => ?_
    exact .ok
termination_by 8 * ts.length + 4

theorem declarators_onward (stop stop' : Span) {more : List Token} (ts us : List Token)
    (hus : us = ts ++ more) :
    Onward Left more (declarators stop ts) (declarators stop' us) := by
  rw [declarators, declarators]
  refine (declarator_onward stop stop' ts us hus).bindLeft (fun first h _ => ?_)
    fun first t rest h h' => ?_
  · exact .ok not_left
  · have hlt : rest.length < ts.length := Nat.lt_of_succ_lt h
    dsimp only
    split
    · refine (declarators_onward stop stop' rest _ rfl).bindLeft (fun nodes hr _ => ?_)
        fun nodes u rest' hr hr' => ?_
      · exact .ok not_left
      · exact .ok
    · exact .ok
termination_by 8 * ts.length + 2

theorem declarator_onward (stop stop' : Span) {more : List Token} (ts us : List Token)
    (hus : us = ts ++ more) :
    Onward Left more (declarator stop ts) (declarator stop' us) := by
  rw [declarator, declarator]
  refine (expect_onward .identifier .variableName hus).bindLeft (fun name h _ => ?_)
    fun name t rest h h' => ?_
  · exact .ok not_left
  · have hlt : rest.length < ts.length := Nat.lt_of_succ_lt h
    dsimp only
    split
    · refine (expression_onward stop stop' rest _ rfl).bindLeft (fun value hr _ => ?_)
        fun value u rest' hr hr' => ?_
      · exact .ok not_left
      · exact .ok
    · exact .ok
termination_by 8 * ts.length + 1

end

-- ================================================================ programs

theorem interfaceDecl_onward (stop stop' : Span) (t : Token) {ts us more : List Token}
    (hus : us = ts ++ more) : Onward (Sealed (t :: ts)) more (interfaceDecl stop t ts)
      (interfaceDecl stop' t us) := by
  unfold interfaceDecl
  refine (expect_onward .string .manifestPath hus).bindAny fun path rest₁ h₁ h₁' hpath => ?_
  refine (expect_onward .load .load rfl).bindAny fun load rest₂ h₂ h₂' hload => ?_
  refine (expect_onward .identifier .interfaceName rfl).bindLeft (fun name h hname => ?_)
    fun name u rest₃ h₃ h₃' => ?_
  · obtain ⟨rfl, -⟩ := expect_reads _ _ _ _ _ _ _ hpath
    obtain ⟨rfl, -⟩ := expect_reads _ _ _ _ _ _ _ hload
    obtain ⟨rfl, hk⟩ := expect_reads _ _ _ _ _ _ _ hname
    refine .ok (not_sealed [t, path, load] fun hclosed => ?_)
    rw [hclosed name rfl] at hk
    cases hk
  · refine (finish_onward (congrArg (t :: ·) hus)).bindAny fun ending rest₄ h₄ h₄' _ => ?_
    exact .ok

section

variable {stop stop' : Span} {ts more rest : List Token}

/-- What a reader leaves of tokens that end in a semicolon ends in one. -/
theorem Reads.closed {p : Phrase} {x : Except ParseError (Taken n α)} {nodes : α → List Node}
    (hreads : Reads x fun v => Front p ts (nodes v)) (hclosed : Closed ts) {v : α}
    {h : rest.length < n} (hx : x = .ok ⟨v, rest, h⟩) : Closed rest := by
  obtain ⟨used, rfl, -⟩ := hreads v rest h hx
  exact hclosed.of_append

/-- Statements that end in a semicolon, and what comes behind them. -/
theorem statements_onward (stop' : Span) (more : List Token) (ts : List Token)
    (hclosed : Closed ts) {ns : List Node} (h : statements stop ts = .ok ns) :
    statements stop' (ts ++ more) = (statements stop' more).map (ns ++ ·) := by
  cases ts with
  | nil =>
    rw [statements] at h
    cases h
    rw [List.nil_append]
    cases statements stop' more <;> rfl
  | cons t ts =>
    have honward := statement_onward stop stop' (t :: ts) (t :: (ts ++ more)) rfl
    rw [statements] at h
    rcases hfirst : statement stop (t :: ts) with e | ⟨first, rest, hlt⟩
    · rw [hfirst] at h
      cases h
    · rw [hfirst] at h
      dsimp only [bind, Except.bind] at h
      rcases hmore : statements stop rest with e | ns'
      · rw [hmore] at h
        cases h
      · rw [hmore] at h
        cases h
        have hshorter : rest.length < ts.length + 1 := hlt
        obtain ⟨hlt', hfirst'⟩ := honward first rest hlt hfirst (.inr hclosed)
        have hrest := (statement_reads stop (t :: ts)).closed hclosed hfirst
        rw [List.cons_append, statements, hfirst']
        dsimp only [bind, Except.bind]
        rw [statements_onward stop' more rest hrest hmore]
        cases statements stop' more <;> rfl
termination_by ts.length

/-- A program that ends in a semicolon, and statements behind it. -/
theorem sections_onward (stop' : Span) {more : List Token} (hmore : Heads (· ≠ .interface_) more)
    (ts : List Token) (hclosed : Closed ts) {ds ns : List Node}
    (h : sections stop ts = .ok (ds, ns)) :
    sections stop' (ts ++ more) = (statements stop' more).map fun ms => (ds, ns ++ ms) := by
  by_cases hfirst : Heads (· ≠ .interface_) ts
  · have hwhole : Heads (· ≠ .interface_) (ts ++ more) := by
      cases ts with
      | nil => exact hmore
      | cons t ts => exact .cons (hfirst t rfl)
    rw [sections_statements hfirst] at h
    rw [sections_statements hwhole]
    rcases hstatements : statements stop ts with e | ns'
    · rw [hstatements] at h
      cases h
    · rw [hstatements] at h
      cases h
      rw [statements_onward stop' more ts hclosed hstatements]
      cases statements stop' more <;> rfl
  · cases ts with
    | nil => exact absurd .nil hfirst
    | cons t ts =>
      have hk : t.kind = .interface_ := by
        by_contra hk
        exact hfirst (.cons hk)
      have honward := interfaceDecl_onward stop stop' t (rfl : ts ++ more = ts ++ more)
      rw [sections_interface hk] at h
      rcases hdecl : interfaceDecl stop t ts with e | ⟨first, rest, hlt⟩
      · rw [hdecl] at h
        cases h
      · rw [hdecl] at h
        dsimp only [bind, Except.bind] at h
        rcases hsections : sections stop rest with e | ⟨ds', ns'⟩
        · rw [hsections] at h
          cases h
        · rw [hsections] at h
          cases h
          obtain ⟨hlt', hdecl'⟩ := honward first rest hlt hdecl (.inr hclosed)
          have hrest := (interfaceDecl_reads stop t ts hk).closed hclosed hdecl
          rw [List.cons_append, sections_interface hk, hdecl']
          dsimp only [bind, Except.bind]
          rw [sections_onward stop' hmore rest hrest hsections]
          cases statements stop' more <;> rfl
termination_by ts.length

end

end SamScript.Parser
