/-
The parser obeys the grammar. Whatever a production returns is spelled by the
tokens it took, and these with the tokens it left are the ones it was given
(`Front`). An expression is read on as long as operators come (`expression_stops`),
so a statement that ends without a semicolon is apart from the next one all the same
(`Ends`). The theorems follow the productions one by one and end on their
measure; the last two are about whole programs.
-/
import SamScript.Proofs.Tree.Grammar
import SamScript.Tree.OfSource

namespace SamScript.Parser

variable {α β : Type} {m n : Nat}

-- ================================================================ fronts

/-- Whether the front of some tokens, up to `rest`, spells a phrase. -/
def Front (p : Phrase) (ts : List Token) (nodes : List Node) (rest : List Token) : Prop :=
  ∃ used, ts = used ++ rest ∧ Spells p used nodes

/-- The same where a statement may end without a semicolon if the front ends with a
brace: no operator follows then. -/
def Done (p : Phrase) (ts : List Token) (nodes : List Node) (rest : List Token) : Prop :=
  ∃ used, ts = used ++ rest ∧ Spells p used nodes ∧
    ((∃ t ∈ used.getLast?, t.kind = .rbrace) → NoOperator rest)

/-- The same where what is left is apart from the front. -/
def Ends (p : Phrase) (ts : List Token) (nodes : List Node) (rest : List Token) : Prop :=
  ∃ used, ts = used ++ rest ∧ Spells p used nodes ∧ Parted used rest

/-- Whatever a reader returns, something holds of it and of what it left. -/
def Reads (x : Except ParseError (Taken n α)) (post : α → List Token → Prop) : Prop :=
  ∀ value rest h, x = .ok ⟨value, rest, h⟩ → post value rest

namespace Reads

variable {post : α → List Token → Prop} {after : β → List Token → Prop}

theorem ok {value : α} {rest : List Token} {h : rest.length < n} (hp : post value rest) :
    Reads (.ok ⟨value, rest, h⟩) post := by
  intro value' rest' h' he
  cases he
  exact hp

theorem error (e : ParseError) : Reads (.error e : Except ParseError (Taken n α)) post := by
  intro value rest h he
  cases he

theorem bind {x : Except ParseError (Taken m α)}
    {f : Taken m α → Except ParseError (Taken n β)} (hx : Reads x post)
    (hf : ∀ value rest h, post value rest → Reads (f ⟨value, rest, h⟩) after) :
    Reads (x >>= f) after := by
  rcases x with e | ⟨value, rest, h⟩
  · exact error e
  · exact hf value rest h (hx value rest h rfl)

theorem mono {post' : α → List Token → Prop} {x : Except ParseError (Taken n α)}
    (hx : Reads x post) (h : ∀ value rest, post value rest → post' value rest) :
    Reads x post' :=
  fun value rest hlt he => h value rest (hx value rest hlt he)

theorem and {post' : α → List Token → Prop} {x : Except ParseError (Taken n α)}
    (hx : Reads x post) (hx' : Reads x post') :
    Reads x fun value rest => post value rest ∧ post' value rest :=
  fun value rest hlt he => ⟨hx value rest hlt he, hx' value rest hlt he⟩

theorem any (x : Except ParseError (Taken n α)) : Reads x fun _ _ => True :=
  fun _ _ _ _ => trivial

end Reads

theorem noOperator_nil : NoOperator [] :=
  fun t ht => absurd ht (Option.not_mem_none t)

theorem NoOperator.front {more rest : List Token} (h : NoOperator (more ++ rest)) :
    NoOperator more := by
  cases more with
  | nil => exact noOperator_nil
  | cons t more => exact h

theorem Parted.front {ts more rest : List Token} (h : Parted ts (more ++ rest)) :
    Parted ts more :=
  h.imp_right NoOperator.front

theorem Parted.behind {ts more : List Token} (h : Parted ts more) (front : List Token) :
    Parted (front ++ ts) more := by
  refine h.imp_left fun ⟨t, ht, hk⟩ => ⟨t, ?_, hk⟩
  rw [List.getLast?_append, Option.mem_def.1 ht]
  rfl

theorem Done.front {p : Phrase} {ts rest : List Token} {nodes : List Node}
    (h : Done p ts nodes rest) : Front p ts nodes rest := by
  obtain ⟨used, hused, hs, -⟩ := h
  exact ⟨used, hused, hs⟩

theorem Ends.front {p : Phrase} {ts rest : List Token} {nodes : List Node}
    (h : Ends p ts nodes rest) : Front p ts nodes rest := by
  obtain ⟨used, hused, hs, -⟩ := h
  exact ⟨used, hused, hs⟩

theorem expect_reads (stop : Span) (kind : TokenKind) (expected : Expected) (ts : List Token) :
    Reads (expect stop kind expected ts) fun t rest => ts = [t] ++ rest ∧ t.kind = kind := by
  rcases ts with _ | ⟨t, rest⟩
  · exact .error _
  · unfold expect
    dsimp only
    split
    · exact .ok ⟨rfl, ‹_›⟩
    · exact .error _

/-- Tokens whose last one is of another kind do not end with a brace. -/
theorem not_brace {t : Token} {kind : TokenKind} (ht : t.kind = kind) (hkind : kind ≠ .rbrace)
    (front : List Token) : ¬ ∃ u ∈ (front ++ [t]).getLast?, u.kind = .rbrace := by
  rintro ⟨u, hu, hk⟩
  rw [List.getLast?_concat] at hu
  cases hu
  exact hkind (ht.symm.trans hk)

theorem lastBefore_append (front rest : List Token) :
    lastBefore (front ++ rest) rest = front.getLast? := by
  rw [lastBefore, List.length_append, Nat.add_sub_cancel, List.take_left]

/-- A statement that is finished is apart from what comes behind it. -/
theorem finish_ends (stop : Span) {ts front rest : List Token} (h : rest.length < ts.length)
    (hts : ts = front ++ rest) (hbrace : (∃ t ∈ front.getLast?, t.kind = .rbrace) → NoOperator rest) :
    Reads (finish stop ts rest h) fun nodes rest' =>
      ∃ used, rest = used ++ rest' ∧ Spells .ending used nodes ∧ Parted (front ++ used) rest' := by
  have hnone (hrest : NoOperator rest) : Parted (front ++ []) rest := .inr hrest
  rcases rest with _ | ⟨t, after⟩
  · exact .ok ⟨[], rfl, .noSemicolon, hnone noOperator_nil⟩
  · unfold finish
    dsimp only
    split
    · rename_i hk
      exact .ok ⟨[t], rfl, .semicolon hk, .inl ⟨t, by simp, hk⟩⟩
    · split
      · rename_i hend
        refine .ok ⟨[], rfl, .noSemicolon, hnone ?_⟩
        rcases hend with hk | hlast
        · intro u hu
          cases hu
          rw [hk]
          rfl
        · rw [hts, lastBefore_append] at hlast
          refine hbrace ?_
          cases hlast' : front.getLast? with
          | none =>
            rw [hlast'] at hlast
            cases hlast
          | some u =>
            rw [hlast'] at hlast
            exact ⟨u, rfl, of_decide_eq_true hlast⟩
      · exact .error _

theorem lambdaTail?_front {ts rest : List Token} {nodes : List Node}
    (h : lambdaTail? ts = some (nodes, rest)) : Front .tail ts nodes rest := by
  fun_induction lambdaTail? ts generalizing nodes rest with
  | case1 a b r hk ih =>
    obtain ⟨⟨ns, t⟩, hp, he⟩ := Option.map_eq_some_iff.1 h
    cases he
    obtain ⟨used, rfl, hs⟩ := ih hp
    exact ⟨[a] ++ ([b] ++ used), rfl, .parameter hk.1 hk.2 hs⟩
  | case2 a b r _ hk =>
    cases h
    exact ⟨[a] ++ [b], rfl, .arrow hk.1 hk.2⟩
  | case3 => cases h
  | case4 => cases h

theorem lambdaHead?_front {ts rest : List Token} {nodes : List Node}
    (h : lambdaHead? ts = some (nodes, rest)) : Front .head ts nodes rest := by
  unfold lambdaHead? at h
  split at h
  · rename_i t r
    split at h
    · obtain ⟨⟨ns, u⟩, hp, he⟩ := Option.map_eq_some_iff.1 h
      cases he
      obtain ⟨used, rfl, hs⟩ := lambdaTail?_front hp
      exact ⟨[t] ++ used, rfl, .parameters ‹_› hs⟩
    · split at h
      · obtain ⟨used, hu, hs⟩ := lambdaTail?_front h
        cases hs with
        | arrow hc ha =>
          cases hu
          exact ⟨_, rfl, .bare hc (.arrow hc ha)⟩
        | parameter hc hb hmore =>
          cases hu
          exact ⟨_, rfl, .bare ‹_› (.parameter hc hb hmore)⟩
      · cases h
  · cases h

-- ============================================================== operators

/-- All operators that follow are read. -/
theorem operators_stops (stop : Span) (bound : Nat) (left : Node) : ∀ (ts : List Token)
    (h : ts.length < bound), Reads (operators stop 0 bound left ts h) fun _ => NoOperator
  | [], h => by
    rw [operators]
    exact .ok noOperator_nil
  | op :: rest, h => by
    rw [operators]
    split
    · rename_i hop
      refine .ok fun t ht => ?_
      cases ht
      exact hop
    · rw [if_pos (Nat.zero_le _)]
      exact (Reads.any _).bind fun right rest' h' _ => operators_stops stop bound _ rest' _
termination_by ts => ts.length

/-- No operator is left behind an expression. -/
theorem expression_stops (stop : Span) (ts : List Token) :
    Reads (expression stop ts) fun _ => NoOperator := by
  rw [expression, binary]
  exact (Reads.any _).bind fun left rest h _ => operators_stops stop ts.length left rest h

-- =========================================================== productions

mutual

theorem expression_reads (stop : Span) (ts : List Token) :
    Reads (expression stop ts) fun n => Front .expression ts [n] := by
  rw [expression]
  exact binary_reads stop 0 ts
termination_by 8 * ts.length + 3

theorem binary_reads (stop : Span) (least : Nat) (ts : List Token) :
    Reads (binary stop least ts) fun n => Front .expression ts [n] := by
  rw [binary]
  refine (postfixExpr_reads stop ts).bind fun left rest h hleft => ?_
  exact operators_reads stop least ts.length left rest h hleft
termination_by 8 * ts.length + 2

theorem operators_reads {whole : List Token} (stop : Span) (least bound : Nat) (left : Node) :
    ∀ (ts : List Token) (h : ts.length < bound), Front .expression whole [left] ts →
      Reads (operators stop least bound left ts h) fun n => Front .expression whole [n]
  | [], h, hleft => by
    rw [operators]
    exact .ok hleft
  | op :: rest, h, hleft => by
    rw [operators]
    split
    · exact .ok hleft
    · rename_i p hp
      split
      · refine (binary_reads stop (p + 1) rest).bind fun right rest' h' hright => ?_
        refine operators_reads stop least bound _ rest' _ ?_
        obtain ⟨ls, hls, hl⟩ := hleft
        obtain ⟨rs, hrs, hr⟩ := hright
        refine ⟨ls ++ ([op] ++ rs), ?_, .binary hl hp hr⟩
        simp [hls, hrs]
      · exact .ok hleft
termination_by ts => 8 * ts.length

theorem postfixExpr_reads (stop : Span) (ts : List Token) :
    Reads (postfixExpr stop ts) fun n => Front .expression ts [n] := by
  rw [postfixExpr]
  refine (primary_reads stop ts).bind fun first rest h hfirst => ?_
  exact suffixes_reads stop ts.length first rest h hfirst
termination_by 8 * ts.length + 1

theorem suffixes_reads {whole : List Token} (stop : Span) (bound : Nat) (before : Node) :
    ∀ (ts : List Token) (h : ts.length < bound), Front .expression whole [before] ts →
      Reads (suffixes stop bound before ts h) fun n => Front .expression whole [n]
  | [], h, hbefore => by
    rw [suffixes]
    exact .ok hbefore
  | t :: rest, h, hbefore => by
    rw [suffixes]
    split
    · refine (listed_reads stop (some .arguments) .rparen .closeParen rest).bind
        fun items rest' h' hitems => ?_
      refine suffixes_reads stop bound _ rest' _ ?_
      obtain ⟨fs, hfs, hf⟩ := hbefore
      obtain ⟨is, his, hi⟩ := hitems
      refine ⟨fs ++ ([t] ++ is), ?_, .call hf ‹_› hi⟩
      simp [hfs, his]
    · split
      · refine (expect_reads stop .identifier .attributeName rest).bind
          fun name rest' h' hname => ?_
        refine suffixes_reads stop bound _ rest' _ ?_
        obtain ⟨ps, hps, hp⟩ := hbefore
        refine ⟨ps ++ ([t] ++ [name]), ?_, .access hp ‹_› hname.2⟩
        simp [hps, hname.1]
      · exact .ok hbefore
termination_by ts => 8 * ts.length

theorem primary_reads (stop : Span) :
    ∀ ts : List Token, Reads (primary stop ts) fun n => Front .expression ts [n]
  | [] => by
    rw [primary]
    exact .error _
  | t :: rest => by
    rw [primary.eq_def]
    dsimp only
    split
    · exact .ok ⟨[t], rfl, .number ‹_›⟩
    · -- a sign
      split
      · rename_i hm _ n after
        split
        · rename_i hn
          exact .ok ⟨[t, n], rfl, .negative hm hn.1 hn.2⟩
        · exact .error _
      · exact .error _
    · exact .ok ⟨[t], rfl, .string ‹_›⟩
    · exact .ok ⟨[t], rfl, .name ‹_›⟩
    · -- an opening parenthesis
      split
      · rename_i ho head after hl
        have := length_of_lambdaHead? hl
        refine (block_reads stop after).bind fun body after' h' hbody => ?_
        obtain ⟨hs, hhs, hh⟩ := lambdaHead?_front hl
        obtain ⟨bs, hbs, hb⟩ := hbody
        refine .ok ⟨[t] ++ (hs ++ bs), ?_, .lambda ho hh hb⟩
        simp [hhs, hbs]
      · rename_i ho hl
        refine (expression_reads stop rest).bind fun inner rest' h' hinner => ?_
        refine (expect_reads stop .rparen .closeParen rest').bind fun c after h'' hc => ?_
        obtain ⟨ts, hts, hi⟩ := hinner
        refine .ok ⟨[t] ++ (ts ++ [c]), ?_, .group ho hc.2 hi⟩
        simp [hts, hc.1]
    · refine (listed_reads stop none .rbracket .closeBracket rest).bind
        fun items rest' h' hitems => ?_
      obtain ⟨is, his, hi⟩ := hitems
      refine .ok ⟨[t] ++ is, ?_, .array ‹_› hi⟩
      simp [his]
    · refine (conditional_reads stop t rest ‹_›).bind fun n rest' h' hn => ?_
      obtain ⟨used, hu, hs⟩ := hn
      exact .ok ⟨used, hu, .conditional hs⟩
    · exact .error _
termination_by ts => 8 * ts.length

theorem listed_reads (stop : Span) (field : Option Field) (close : TokenKind)
    (expected : Expected) : ∀ ts : List Token,
    Reads (listed stop field close expected ts) (Front (.listed field close) ts)
  | [] => by
    rw [listed]
    exact items_reads stop field close expected []
  | t :: rest => by
    rw [listed]
    split
    · exact .ok ⟨[t], rfl, .close ‹_›⟩
    · exact items_reads stop field close expected (t :: rest)
termination_by ts => 8 * ts.length + 5

theorem items_reads (stop : Span) (field : Option Field) (close : TokenKind)
    (expected : Expected) (ts : List Token) :
    Reads (items stop field close expected ts) (Front (.listed field close) ts) := by
  rw [items]
  refine (expression_reads stop ts).bind fun item rest h hitem => ?_
  obtain ⟨is, his, hi⟩ := hitem
  dsimp only
  split
  · exact .error _
  · rename_i t after h'
    split
    · rename_i hcomma
      refine (listed_reads stop field close expected after).bind fun more rest' h'' hmore => ?_
      obtain ⟨ms, hms, hm⟩ := hmore
      refine .ok ⟨is ++ ([t] ++ ms), ?_, .item hi hcomma hm⟩
      simp [his, hms]
    · split
      · rename_i hclose
        refine .ok ⟨is ++ [t], ?_, .last hi hclose⟩
        simp [his]
      · exact .error _
termination_by 8 * ts.length + 4

theorem conditional_reads (stop : Span) (t : Token) (ts : List Token) (ht : t.kind = .if_) :
    Reads (conditional stop t ts) fun n => Front .conditional (t :: ts) [n] := by
  rw [conditional]
  refine (expect_reads stop .lparen .openAfterIf ts).bind fun o rest₁ h₁ ho => ?_
  refine (expression_reads stop rest₁).bind fun condition rest₂ h₂ hcondition => ?_
  refine (expect_reads stop .rparen .closeParen rest₂).bind fun c rest₃ h₃ hc => ?_
  refine (block_reads stop rest₃).bind fun consequence rest₄ h₄ hconsequence => ?_
  refine (alternative?_reads stop ts.length rest₄ _).bind fun alternative rest₅ h₅ halt => ?_
  obtain ⟨cs, hcs, hcond⟩ := hcondition
  obtain ⟨bs, hbs, hb⟩ := hconsequence
  obtain ⟨as, has, ha⟩ := halt
  refine .ok ⟨[t] ++ ([o] ++ (cs ++ ([c] ++ (bs ++ as)))), ?_, .if_ ht ho.2 hcond hc.2 hb ha⟩
  simp [ho.1, hcs, hc.1, hbs, has]
termination_by 8 * ts.length + 1

theorem alternative?_reads (stop : Span) (bound : Nat) :
    ∀ (ts : List Token) (h : ts.length < bound),
      Reads (alternative? stop bound ts h) (Front .alternative ts)
  | [], h => by
    rw [alternative?]
    exact .ok ⟨[], rfl, .noElse⟩
  | [t], h => by
    rw [alternative?]
    split
    · exact .error _
    · exact .ok ⟨[], rfl, .noElse⟩
  | t :: i :: after, h => by
    rw [alternative?]
    split
    · split
      · refine (conditional_reads stop i after ‹_›).bind fun inner rest' h' hinner => ?_
        obtain ⟨used, hu, hs⟩ := hinner
        refine .ok ⟨[t] ++ used, ?_, .elseIf ‹_› hs⟩
        simp [hu]
      · refine (block_reads stop (i :: after)).bind fun inner rest' h' hinner => ?_
        obtain ⟨used, hu, hs⟩ := hinner
        refine .ok ⟨[t] ++ used, ?_, .elseBlock ‹_› hs⟩
        simp [hu]
    · exact .ok ⟨[], rfl, .noElse⟩
termination_by ts => 8 * ts.length + 1

theorem block_reads (stop : Span) (ts : List Token) :
    Reads (block stop ts) fun n => Front .block ts [n] := by
  rw [block]
  refine (expect_reads stop .lbrace .openBrace ts).bind fun o rest h ho => ?_
  refine (blockItems_reads stop rest).bind fun inner rest' h' hinner => ?_
  obtain ⟨used, hu, hs⟩ := hinner
  refine .ok ⟨[o] ++ used, ?_, .block ho.2 hs⟩
  simp [ho.1, hu]
termination_by 8 * ts.length

theorem blockItems_reads (stop : Span) :
    ∀ ts : List Token, Reads (blockItems stop ts) (Front .inner ts)
  | [] => by
    rw [blockItems]
    exact .error _
  | t :: rest => by
    rw [blockItems]
    split
    · exact .ok ⟨[t], rfl, .brace ‹_›⟩
    · refine (statement_ends stop (t :: rest)).bind fun first rest₁ h₁ hfirst => ?_
      have hle : rest₁.length ≤ rest.length := Nat.le_of_lt_succ h₁
      refine (blockItems_reads stop rest₁).bind fun more rest₂ h₂ hmore => ?_
      obtain ⟨fs, hfs, hf, hparted⟩ := hfirst
      obtain ⟨ms, rfl, hm⟩ := hmore
      refine .ok ⟨fs ++ ms, ?_, .inner hf hparted.front hm⟩
      simp [hfs]
termination_by ts => 8 * ts.length + 7

theorem statement_ends (stop : Span) :
    ∀ ts : List Token, Reads (statement stop ts) fun n => Ends .statement ts [n]
  | [] => by
    rw [statement]
    exact .error _
  | t :: rest => by
    rw [statement.eq_def]
    dsimp only
    split
    · -- a declaration
      rename_i hlet
      refine (declarators_done stop rest).bind fun inner rest₁ h₁ hinner => ?_
      obtain ⟨is, rfl, hi, hbrace⟩ := hinner
      have hlast : (∃ u ∈ ([t] ++ is).getLast?, u.kind = .rbrace) → NoOperator rest₁ := by
        rcases is with _ | ⟨i, is⟩
        · exact fun hk => absurd hk (not_brace hlet (by decide) [])
        · rintro ⟨u, hu, hk⟩
          exact hbrace ⟨u, by simpa using hu, hk⟩
      refine (finish_ends stop _ (by simp) hlast).bind fun ending rest₂ h₂ hending => ?_
      obtain ⟨es, rfl, he, hparted⟩ := hending
      exact .ok ⟨[t] ++ (is ++ es), by simp, .declaration hlet hi he, by simpa using hparted⟩
    · -- a return
      rename_i hr
      have hreturn := not_brace hr (by decide) []
      split
      · exact .ok ⟨[t] ++ [], rfl, .return_ hr .noSemicolon, .inr noOperator_nil⟩
      · rename_i u after
        split
        · refine (finish_ends stop _ (rfl : t :: u :: after = [t] ++ _)
            fun hk => absurd hk hreturn).bind fun ending rest₂ h₂ hending => ?_
          obtain ⟨es, hes, he, hparted⟩ := hending
          refine .ok ⟨[t] ++ es, ?_, .return_ hr he, hparted⟩
          simp [hes]
        · refine ((expression_reads stop (u :: after)).and
            (expression_stops stop (u :: after))).bind fun value rest₁ h₁ hvalue => ?_
          obtain ⟨⟨vs, hvs, hv⟩, hstops⟩ := hvalue
          refine (finish_ends stop _ (by rw [hvs]; rfl : t :: u :: after = [t] ++ vs ++ rest₁)
            fun _ => hstops).bind fun ending rest₂ h₂ hending => ?_
          obtain ⟨es, hes, he, hparted⟩ := hending
          refine .ok ⟨[t] ++ (vs ++ es), ?_, .returnValue hr hv he, by simpa using hparted⟩
          simp [hvs, hes]
    · exact plainStatement_ends stop (t :: rest)
termination_by ts => 8 * ts.length + 6

theorem plainStatement_ends (stop : Span) :
    ∀ ts : List Token, Reads (plainStatement stop ts) fun n => Ends .statement ts [n]
  | [] => by
    rw [plainStatement]
    · exact expressionStatement_ends stop []
    · simp
  | [t] => by
    rw [plainStatement]
    · exact expressionStatement_ends stop [t]
    · simp
  | t :: u :: rest => by
    rw [plainStatement]
    split
    · rename_i hk
      refine ((expression_reads stop rest).and (expression_stops stop rest)).bind
        fun value rest₁ h₁ hvalue => ?_
      obtain ⟨⟨vs, hvs, hv⟩, hstops⟩ := hvalue
      refine (finish_ends stop _ (by rw [hvs]; rfl : t :: u :: rest = [t] ++ [u] ++ vs ++ rest₁)
        fun _ => hstops).bind fun ending rest₂ h₂ hending => ?_
      obtain ⟨es, hes, he, hparted⟩ := hending
      refine .ok ⟨[t] ++ ([u] ++ (vs ++ es)), ?_, .assignment hk.1 hk.2 hv he, by simpa using hparted⟩
      simp [hvs, hes]
    · exact expressionStatement_ends stop (t :: u :: rest)
termination_by ts => 8 * ts.length + 5

theorem expressionStatement_ends (stop : Span) (ts : List Token) :
    Reads (expressionStatement stop ts) fun n => Ends .statement ts [n] := by
  rw [expressionStatement]
  refine ((expression_reads stop ts).and (expression_stops stop ts)).bind
    fun inner rest₁ h₁ hinner => ?_
  obtain ⟨⟨is, his, hi⟩, hstops⟩ := hinner
  refine (finish_ends stop h₁ his fun _ => hstops).bind fun ending rest₂ h₂ hending => ?_
  obtain ⟨es, hes, he, hparted⟩ := hending
  refine .ok ⟨is ++ es, ?_, .plain hi he, hparted⟩
  simp [his, hes]
termination_by 8 * ts.length + 4

theorem declarators_done (stop : Span) (ts : List Token) :
    Reads (declarators stop ts) (Done .declarators ts) := by
  rw [declarators]
  refine (declarator_done stop ts).bind fun first rest h hfirst => ?_
  obtain ⟨fs, hfs, hf, hbrace⟩ := hfirst
  dsimp only
  split
  · rename_i t after h'
    split
    · rename_i hcomma
      refine (declarators_done stop after).bind fun more rest' h'' hmore => ?_
      obtain ⟨ms, hms, hm, hlast⟩ := hmore
      refine .ok ⟨fs ++ ([t] ++ ms), ?_, .declarators hf hcomma hm, ?_⟩
      · simp [hfs, hms]
      · rcases ms with _ | ⟨m, ms⟩
        · exact fun hk => absurd hk (not_brace hcomma (by decide) fs)
        · rintro ⟨u, hu, hk⟩
          exact hlast ⟨u, by simpa using hu, hk⟩
    · exact .ok ⟨fs, hfs, .declarator hf, hbrace⟩
  · exact .ok ⟨fs, hfs, .declarator hf, hbrace⟩
termination_by 8 * ts.length + 2

theorem declarator_done (stop : Span) (ts : List Token) :
    Reads (declarator stop ts) fun n => Done .declarator ts [n] := by
  rw [declarator]
  refine (expect_reads stop .identifier .variableName ts).bind fun name rest h hname => ?_
  obtain ⟨hts, hk⟩ := hname
  -- a name alone does not end with a brace
  have hbrace (us : List Token) : (∃ u ∈ [name].getLast?, u.kind = .rbrace) → NoOperator us :=
    fun hlast => absurd hlast (not_brace hk (by decide) [])
  dsimp only
  split
  · rename_i t after h'
    split
    · rename_i hassign
      refine ((expression_reads stop after).and (expression_stops stop after)).bind
        fun value rest' h'' hvalue => ?_
      obtain ⟨⟨vs, hvs, hv⟩, hstops⟩ := hvalue
      refine .ok ⟨[name] ++ ([t] ++ vs), ?_, .variableValue hk hassign hv, fun _ => hstops⟩
      simp [hts, hvs]
    · exact .ok ⟨[name], hts, .variable_ hk, hbrace _⟩
  · exact .ok ⟨[name], hts, .variable_ hk, hbrace _⟩
termination_by 8 * ts.length + 1

end

theorem statement_reads (stop : Span) (ts : List Token) :
    Reads (statement stop ts) fun n => Front .statement ts [n] :=
  (statement_ends stop ts).mono fun _ _ => Ends.front

theorem declarators_reads (stop : Span) (ts : List Token) :
    Reads (declarators stop ts) (Front .declarators ts) :=
  (declarators_done stop ts).mono fun _ _ => Done.front

-- =============================================================== programs

theorem interfaceDecl_ends (stop : Span) (t : Token) (ts : List Token) (ht : t.kind = .interface_) :
    Reads (interfaceDecl stop t ts) fun n => Ends .interface_ (t :: ts) [n] := by
  unfold interfaceDecl
  refine (expect_reads stop .string .manifestPath ts).bind fun path rest₁ h₁ hpath => ?_
  refine (expect_reads stop .load .load rest₁).bind fun load rest₂ h₂ hload => ?_
  refine (expect_reads stop .identifier .interfaceName rest₂).bind fun name rest₃ h₃ hname => ?_
  have hts : t :: ts = [t, path, load, name] ++ rest₃ := by
    rw [hpath.1, hload.1, hname.1]
    rfl
  refine (finish_ends stop _ hts fun hlast =>
    absurd hlast (not_brace hname.2 (by decide) [t, path, load])).bind fun ending rest₄ h₄ hending => ?_
  obtain ⟨es, rfl, he, hparted⟩ := hending
  exact .ok ⟨[t] ++ ([path] ++ ([load] ++ ([name] ++ es))), by rw [hts]; simp,
    .interface_ ht hpath.2 hload.2 hname.2 he, hparted⟩

theorem interfaceDecl_reads (stop : Span) (t : Token) (ts : List Token) (ht : t.kind = .interface_) :
    Reads (interfaceDecl stop t ts) fun n => Front .interface_ (t :: ts) [n] :=
  (interfaceDecl_ends stop t ts ht).mono fun _ _ => Ends.front

/-- The last of some declarations is apart from what comes behind it. -/
theorem interfaces_ends (stop : Span) : ∀ (ts : List Token) {nodes : List Node}
    {rest : List Token}, interfaces stop ts = .ok (nodes, rest) →
      ∃ used, ts = used ++ rest ∧ Spells .interfaces used nodes ∧
        (used = [] ∨ Parted used rest)
  | [], nodes, rest, h => by
    rw [interfaces] at h
    cases h
    exact ⟨[], rfl, .noInterfaces, .inl rfl⟩
  | t :: ts, nodes, rest, h => by
    rw [interfaces] at h
    split at h
    · rename_i ht
      rcases hfirst : interfaceDecl stop t ts with e | ⟨first, rest', hrest⟩
      · rw [hfirst] at h
        cases h
      · rw [hfirst] at h
        change (interfaces stop rest' >>= fun more => .ok (first :: more.1, more.2)) = _ at h
        rcases hmore : interfaces stop rest' with e | ⟨more, rest''⟩
        · rw [hmore] at h
          cases h
        · rw [hmore] at h
          cases h
          obtain ⟨fs, hfs, hf, hparted⟩ := interfaceDecl_ends stop t ts ht first rest' hrest hfirst
          obtain ⟨ms, rfl, hm, hlast⟩ := interfaces_ends stop rest' hmore
          refine ⟨fs ++ ms, by rw [hfs, List.append_assoc], .interfaces hf hm, .inr ?_⟩
          rcases hlast with rfl | hlast
          · rwa [List.append_nil]
          · exact hlast.behind fs
    · cases h
      exact ⟨[], rfl, .noInterfaces, .inl rfl⟩
termination_by ts => ts.length

theorem interfaces_front (stop : Span) (ts : List Token) {nodes : List Node} {rest : List Token}
    (h : interfaces stop ts = .ok (nodes, rest)) : Front .interfaces ts nodes rest := by
  obtain ⟨used, hused, hs, -⟩ := interfaces_ends stop ts h
  exact ⟨used, hused, hs⟩

theorem statements_spells (stop : Span) : ∀ (ts : List Token) {nodes : List Node},
    statements stop ts = .ok nodes → Spells .statements ts nodes
  | [], nodes, h => by
    rw [statements] at h
    cases h
    exact .noStatements
  | t :: ts, nodes, h => by
    rw [statements] at h
    rcases hfirst : statement stop (t :: ts) with e | ⟨first, rest', hrest⟩
    · rw [hfirst] at h
      cases h
    · rw [hfirst] at h
      change (statements stop rest' >>= fun more => .ok (first :: more)) = _ at h
      rcases hmore : statements stop rest' with e | more
      · rw [hmore] at h
        cases h
      · rw [hmore] at h
        cases h
        obtain ⟨fs, hfs, hf, hparted⟩ := statement_ends stop (t :: ts) first rest' hrest hfirst
        have hle : rest'.length ≤ ts.length := Nat.le_of_lt_succ hrest
        rw [hfs]
        exact .statements hf hparted (statements_spells stop rest' hmore)
termination_by ts => ts.length

/-- The two sections of a parsed program: its tokens are interface declarations and
statements, and the declarations are apart from the statements. -/
theorem program_sections {list : TokenList} {root : Node} (h : program list = .ok root) :
    ∃ ds is declared inner, list.tokens = ds ++ is ∧ Spells .interfaces ds declared ∧
      (ds = [] ∨ Parted ds is) ∧ Spells .statements is inner ∧
      root = rootNode list.stop declared inner := by
  unfold program at h
  rcases hdeclared : interfaces list.stop list.tokens with e | ⟨declared, rest⟩
  · rw [hdeclared] at h
    cases h
  · rw [hdeclared] at h
    change (statements list.stop rest >>= fun inner =>
      .ok (rootNode list.stop declared inner)) = _ at h
    rcases hinner : statements list.stop rest with e | inner
    · rw [hinner] at h
      cases h
    · rw [hinner] at h
      cases h
      obtain ⟨ds, hds, hd, hparted⟩ := interfaces_ends list.stop list.tokens hdeclared
      exact ⟨ds, rest, declared, inner, hds, hd, hparted, statements_spells _ _ hinner, rfl⟩

/-- The root of a parsed program: its tokens are interface declarations and
statements. -/
theorem program_spells {list : TokenList} {root : Node} (h : program list = .ok root) :
    ∃ ds is declared inner, list.tokens = ds ++ is ∧ Spells .interfaces ds declared ∧
      Spells .statements is inner ∧ root = rootNode list.stop declared inner := by
  obtain ⟨ds, is, declared, inner, htokens, hds, -, his, hroot⟩ := program_sections h
  exact ⟨ds, is, declared, inner, htokens, hds, his, hroot⟩

/-- What the limit on brackets lets through is parsed without it. -/
theorem program_of_within {limit : Option Nat} {list : TokenList} {root : Node}
    (h : programWithin limit list = .ok root) : program list = .ok root := by
  unfold programWithin at h
  split at h
  · split at h
    · cases h
    · exact h
  · exact h

end SamScript.Parser

namespace SamScript

/-- A parsed text: its tokens are parsed to the root of its tree. -/
theorem Tree.ofSource_program {bounds : Bounds} {file : Option String} {source : String}
    {tree : Tree} (h : Tree.ofSource bounds file source = .ok tree) :
    tree.source = Utf8.encode source.toList ∧ ∃ list, tokenize file source = .ok list ∧
      Parser.program list = .ok tree.root := by
  unfold Tree.ofSource at h
  split at h
  · cases h
  · rename_i list hlist
    split at h
    · cases h
    · rename_i root hroot
      cases h
      exact ⟨rfl, list, hlist, Parser.program_of_within hroot⟩

/-- The tokens of a parsed text, and how they spell its tree. -/
theorem Tree.ofSource_spells {bounds : Bounds} {file : Option String} {source : String}
    {tree : Tree} (h : Tree.ofSource bounds file source = .ok tree) :
    tree.source = Utf8.encode source.toList ∧ ∃ list, tokenize file source = .ok list ∧
      ∃ ds is declared inner, list.tokens = ds ++ is ∧ Spells .interfaces ds declared ∧
        Spells .statements is inner ∧ tree.root = rootNode list.stop declared inner := by
  obtain ⟨hsource, list, hlist, hroot⟩ := Tree.ofSource_program h
  exact ⟨hsource, list, hlist, Parser.program_spells hroot⟩

end SamScript
