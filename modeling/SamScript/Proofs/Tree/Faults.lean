/-
Where tokens fail to be a program. A production leaves the end of the tokens
that it was given, and if it fails, it does so at one of them or at the end of
the program (`Stays`). Readers that follow each other do so too, and the
theorems follow the productions one by one and end on their measure. So a text
that does not parse is blamed on a token or on its very end
(`Tree.ofSource_faults`).
-/
import SamScript.Proofs.Token.Faults
import SamScript.Proofs.Tree.Soundness

namespace SamScript.Parser

variable {α β : Type} {m n : Nat}

/-- Whether a failure is at one of some tokens, or at the end of the program. -/
def FailsAt (stop : Span) (ts : List Token) (e : ParseError) : Prop :=
  e.span = stop ∨ ∃ t ∈ ts, e.span = t.span

theorem FailsAt.mono {stop : Span} {ts us : List Token} {e : ParseError} (h : FailsAt stop us e)
    (hsub : us <:+ ts) : FailsAt stop ts e :=
  h.imp id fun ⟨t, ht, he⟩ => ⟨t, hsub.subset ht, he⟩

/-- Whether a reader of tokens leaves the end of them, and fails at one of them
or at the end of the program. -/
def Stays (stop : Span) (ts : List Token) (x : Except ParseError (Taken n α)) : Prop :=
  match x with
  | .error e => FailsAt stop ts e
  | .ok r => r.rest <:+ ts

namespace Stays

variable {stop : Span} {ts us : List Token} {x : Except ParseError (Taken m α)}

theorem ok {value : α} {rest : List Token} {h : rest.length < n} (hrest : rest <:+ ts) :
    Stays stop ts (.ok ⟨value, rest, h⟩) :=
  hrest

theorem missing (expected : Expected) (h : us <:+ ts) :
    Stays stop ts (.error (missing stop expected us) : Except ParseError (Taken n α)) := by
  cases us with
  | nil => exact .inl rfl
  | cons t rest => exact .inr ⟨t, h.subset List.mem_cons_self, rfl⟩

/-- A reader of an end of the tokens. -/
theorem mono (hx : Stays stop us x) (h : us <:+ ts) : Stays stop ts x := by
  rcases x with e | r
  · exact FailsAt.mono hx h
  · exact List.IsSuffix.trans hx h

/-- And then more, on what it left. -/
theorem bind {f : Taken m α → Except ParseError (Taken n β)} (hx : Stays stop ts x)
    (hf : ∀ value rest h, rest <:+ ts → Stays stop ts (f ⟨value, rest, h⟩)) :
    Stays stop ts (x >>= f) := by
  rcases x with e | ⟨value, rest, h⟩
  · exact hx
  · exact hf value rest h hx

end Stays

theorem suffix_of_cons {t : Token} {ts us : List Token} (h : t :: us <:+ ts) : us <:+ ts :=
  (List.suffix_cons t us).trans h

theorem expect_stays (stop : Span) (kind : TokenKind) (expected : Expected) (ts : List Token) :
    Stays stop ts (expect stop kind expected ts) := by
  rcases ts with _ | ⟨t, rest⟩
  · exact .missing _ List.suffix_rfl
  · unfold expect
    dsimp only
    split
    · exact .ok (List.suffix_cons t rest)
    · exact .missing _ List.suffix_rfl

theorem finish_stays (stop : Span) (ts rest : List Token) (h : rest.length < ts.length) :
    Stays stop rest (finish stop ts rest h) := by
  rcases rest with _ | ⟨t, after⟩
  · exact .ok List.suffix_rfl
  · unfold finish
    dsimp only
    split
    · exact .ok (List.suffix_cons t after)
    · split
      · exact .ok List.suffix_rfl
      · exact .missing _ List.suffix_rfl

theorem lambdaHead?_suffix {ts rest : List Token} {nodes : List Node}
    (h : lambdaHead? ts = some (nodes, rest)) : rest <:+ ts := by
  obtain ⟨used, rfl, -⟩ := lambdaHead?_front h
  exact List.suffix_append used rest

-- =========================================================== productions

mutual

theorem expression_stays (stop : Span) (ts : List Token) : Stays stop ts (expression stop ts) := by
  rw [expression]
  exact binary_stays stop 0 ts
termination_by 8 * ts.length + 3

theorem binary_stays (stop : Span) (least : Nat) (ts : List Token) :
    Stays stop ts (binary stop least ts) := by
  rw [binary]
  refine (postfixExpr_stays stop ts).bind fun left rest h hrest => ?_
  exact (operators_stays stop least ts.length left rest h).mono hrest
termination_by 8 * ts.length + 2

theorem operators_stays (stop : Span) (least bound : Nat) (left : Node) :
    ∀ (ts : List Token) (h : ts.length < bound),
      Stays stop ts (operators stop least bound left ts h)
  | [], h => by
    rw [operators]
    exact .ok List.suffix_rfl
  | op :: rest, h => by
    rw [operators]
    split
    · exact .ok List.suffix_rfl
    · rename_i p hp
      split
      · refine Stays.mono ?_ (List.suffix_cons op rest)
        refine (binary_stays stop (p + 1) rest).bind fun right rest' h' hrest => ?_
        exact (operators_stays stop least bound _ rest' _).mono hrest
      · exact .ok List.suffix_rfl
termination_by ts => 8 * ts.length

theorem postfixExpr_stays (stop : Span) (ts : List Token) :
    Stays stop ts (postfixExpr stop ts) := by
  rw [postfixExpr]
  refine (primary_stays stop ts).bind fun first rest h hrest => ?_
  exact (suffixes_stays stop ts.length first rest h).mono hrest
termination_by 8 * ts.length + 1

theorem suffixes_stays (stop : Span) (bound : Nat) (before : Node) :
    ∀ (ts : List Token) (h : ts.length < bound), Stays stop ts (suffixes stop bound before ts h)
  | [], h => by
    rw [suffixes]
    exact .ok List.suffix_rfl
  | t :: rest, h => by
    rw [suffixes]
    split
    · refine Stays.mono ?_ (List.suffix_cons t rest)
      refine (listed_stays stop (some .arguments) .rparen .closeParen rest).bind
        fun items rest' h' hrest => ?_
      exact (suffixes_stays stop bound _ rest' _).mono hrest
    · split
      · refine Stays.mono ?_ (List.suffix_cons t rest)
        refine (expect_stays stop .identifier .attributeName rest).bind
          fun name rest' h' hrest => ?_
        exact (suffixes_stays stop bound _ rest' _).mono hrest
      · exact .ok List.suffix_rfl
termination_by ts => 8 * ts.length

theorem primary_stays (stop : Span) : ∀ ts : List Token, Stays stop ts (primary stop ts)
  | [] => by
    rw [primary]
    exact .missing _ List.suffix_rfl
  | t :: rest => by
    have hrest : rest <:+ t :: rest := List.suffix_cons t rest
    rw [primary.eq_def]
    dsimp only
    split
    · exact .ok hrest
    · -- a sign
      split
      · split
        · exact .ok (suffix_of_cons hrest)
        · exact .missing _ List.suffix_rfl
      · exact .missing _ List.suffix_rfl
    · exact .ok hrest
    · exact .ok hrest
    · -- an opening parenthesis
      split
      · rename_i head after hl
        have := length_of_lambdaHead? hl
        refine Stays.mono ?_ ((lambdaHead?_suffix hl).trans hrest)
        exact (block_stays stop after).bind fun body after' h' hafter => .ok hafter
      · refine Stays.mono ?_ hrest
        refine (expression_stays stop rest).bind fun inner rest' h' hinner => ?_
        refine Stays.mono ?_ hinner
        exact (expect_stays stop .rparen .closeParen rest').bind fun c after h'' hafter => .ok hafter
    · refine Stays.mono ?_ hrest
      exact (listed_stays stop none .rbracket .closeBracket rest).bind
        fun items rest' h' hitems => .ok hitems
    · refine Stays.mono ?_ hrest
      exact (conditional_stays stop t rest).bind fun n rest' h' hn => .ok hn
    · exact .missing _ List.suffix_rfl
termination_by ts => 8 * ts.length

theorem listed_stays (stop : Span) (field : Option Field) (close : TokenKind)
    (expected : Expected) : ∀ ts : List Token,
    Stays stop ts (listed stop field close expected ts)
  | [] => by
    rw [listed]
    exact items_stays stop field close expected []
  | t :: rest => by
    rw [listed]
    split
    · exact .ok (List.suffix_cons t rest)
    · exact items_stays stop field close expected (t :: rest)
termination_by ts => 8 * ts.length + 5

theorem items_stays (stop : Span) (field : Option Field) (close : TokenKind)
    (expected : Expected) (ts : List Token) :
    Stays stop ts (items stop field close expected ts) := by
  rw [items]
  refine (expression_stays stop ts).bind fun item rest h hrest => ?_
  dsimp only
  split
  · exact .missing _ hrest
  · rename_i t after h'
    have hlt : after.length + 1 < ts.length := h'
    split
    · refine Stays.mono ?_ (suffix_of_cons hrest)
      exact (listed_stays stop field close expected after).bind fun more rest' h'' hmore => .ok hmore
    · split
      · exact .ok (suffix_of_cons hrest)
      · exact .missing _ hrest
termination_by 8 * ts.length + 4

theorem conditional_stays (stop : Span) (t : Token) (ts : List Token) :
    Stays stop ts (conditional stop t ts) := by
  rw [conditional]
  refine (expect_stays stop .lparen .openAfterIf ts).bind fun o rest₁ h₁ hrest₁ => ?_
  refine Stays.mono ?_ hrest₁
  refine (expression_stays stop rest₁).bind fun condition rest₂ h₂ hrest₂ => ?_
  refine Stays.mono ?_ hrest₂
  refine (expect_stays stop .rparen .closeParen rest₂).bind fun c rest₃ h₃ hrest₃ => ?_
  refine Stays.mono ?_ hrest₃
  refine (block_stays stop rest₃).bind fun consequence rest₄ h₄ hrest₄ => ?_
  refine Stays.mono ?_ hrest₄
  exact (alternative?_stays stop ts.length rest₄ _).bind fun alternative rest₅ h₅ hrest₅ =>
    .ok hrest₅
termination_by 8 * ts.length + 1

theorem alternative?_stays (stop : Span) (bound : Nat) :
    ∀ (ts : List Token) (h : ts.length < bound), Stays stop ts (alternative? stop bound ts h)
  | [], h => by
    rw [alternative?]
    exact .ok List.suffix_rfl
  | [t], h => by
    rw [alternative?]
    split
    · exact .missing _ (List.suffix_cons t [])
    · exact .ok List.suffix_rfl
  | t :: i :: after, h => by
    rw [alternative?]
    split
    · split
      · refine Stays.mono ?_ (suffix_of_cons (List.suffix_cons t (i :: after)))
        exact (conditional_stays stop i after).bind fun inner rest' h' hinner => .ok hinner
      · refine Stays.mono ?_ (List.suffix_cons t (i :: after))
        exact (block_stays stop (i :: after)).bind fun inner rest' h' hinner => .ok hinner
    · exact .ok List.suffix_rfl
termination_by ts => 8 * ts.length + 1

theorem block_stays (stop : Span) (ts : List Token) : Stays stop ts (block stop ts) := by
  rw [block]
  refine (expect_stays stop .lbrace .openBrace ts).bind fun o rest h hrest => ?_
  refine Stays.mono ?_ hrest
  exact (blockItems_stays stop rest).bind fun inner rest' h' hinner => .ok hinner
termination_by 8 * ts.length

theorem blockItems_stays (stop : Span) : ∀ ts : List Token, Stays stop ts (blockItems stop ts)
  | [] => by
    rw [blockItems]
    exact .missing _ List.suffix_rfl
  | t :: rest => by
    rw [blockItems]
    split
    · exact .ok (List.suffix_cons t rest)
    · refine (statement_stays stop (t :: rest)).bind fun first rest₁ h₁ hrest₁ => ?_
      have hle : rest₁.length ≤ rest.length := Nat.le_of_lt_succ h₁
      refine Stays.mono ?_ hrest₁
      exact (blockItems_stays stop rest₁).bind fun more rest₂ h₂ hrest₂ => .ok hrest₂
termination_by ts => 8 * ts.length + 7

theorem statement_stays (stop : Span) : ∀ ts : List Token, Stays stop ts (statement stop ts)
  | [] => by
    rw [statement]
    exact .missing _ List.suffix_rfl
  | t :: rest => by
    have hrest : rest <:+ t :: rest := List.suffix_cons t rest
    rw [statement.eq_def]
    dsimp only
    split
    · -- a declaration
      refine Stays.mono ?_ hrest
      refine (declarators_stays stop rest).bind fun inner rest₁ h₁ hrest₁ => ?_
      refine Stays.mono ?_ hrest₁
      exact (finish_stays stop (t :: rest) rest₁ _).bind fun ending rest₂ h₂ hrest₂ => .ok hrest₂
    · -- a return
      split
      · exact .ok hrest
      · rename_i u after
        refine Stays.mono ?_ hrest
        split
        · exact (finish_stays stop (t :: u :: after) (u :: after) _).bind
            fun ending rest₂ h₂ hrest₂ => .ok hrest₂
        · refine (expression_stays stop (u :: after)).bind fun value rest₁ h₁ hrest₁ => ?_
          refine Stays.mono ?_ hrest₁
          exact (finish_stays stop (t :: u :: after) rest₁ _).bind
            fun ending rest₂ h₂ hrest₂ => .ok hrest₂
    · exact plainStatement_stays stop (t :: rest)
termination_by ts => 8 * ts.length + 6

theorem plainStatement_stays (stop : Span) :
    ∀ ts : List Token, Stays stop ts (plainStatement stop ts)
  | [] => by
    rw [plainStatement]
    · exact expressionStatement_stays stop []
    · simp
  | [t] => by
    rw [plainStatement]
    · exact expressionStatement_stays stop [t]
    · simp
  | t :: u :: rest => by
    rw [plainStatement]
    split
    · refine Stays.mono ?_ (suffix_of_cons (List.suffix_cons t (u :: rest)))
      refine (expression_stays stop rest).bind fun value rest₁ h₁ hrest₁ => ?_
      refine Stays.mono ?_ hrest₁
      exact (finish_stays stop (t :: u :: rest) rest₁ _).bind
        fun ending rest₂ h₂ hrest₂ => .ok hrest₂
    · exact expressionStatement_stays stop (t :: u :: rest)
termination_by ts => 8 * ts.length + 5

theorem expressionStatement_stays (stop : Span) (ts : List Token) :
    Stays stop ts (expressionStatement stop ts) := by
  rw [expressionStatement]
  refine (expression_stays stop ts).bind fun inner rest₁ h₁ hrest₁ => ?_
  refine Stays.mono ?_ hrest₁
  exact (finish_stays stop ts rest₁ h₁).bind fun ending rest₂ h₂ hrest₂ => .ok hrest₂
termination_by 8 * ts.length + 4

theorem declarators_stays (stop : Span) (ts : List Token) :
    Stays stop ts (declarators stop ts) := by
  rw [declarators]
  refine (declarator_stays stop ts).bind fun first rest h hrest => ?_
  dsimp only
  split
  · rename_i t after h'
    have hlt : after.length + 1 < ts.length := h'
    split
    · refine Stays.mono ?_ (suffix_of_cons hrest)
      exact (declarators_stays stop after).bind fun more rest' h'' hmore => .ok hmore
    · exact .ok hrest
  · exact .ok hrest
termination_by 8 * ts.length + 2

theorem declarator_stays (stop : Span) (ts : List Token) :
    Stays stop ts (declarator stop ts) := by
  rw [declarator]
  refine (expect_stays stop .identifier .variableName ts).bind fun name rest h hrest => ?_
  dsimp only
  split
  · rename_i t after h'
    have hlt : after.length + 1 < ts.length := h'
    split
    · refine Stays.mono ?_ (suffix_of_cons hrest)
      exact (expression_stays stop after).bind fun value rest' h'' hvalue => .ok hvalue
    · exact .ok hrest
  · exact .ok hrest
termination_by 8 * ts.length + 1

end

-- =============================================================== programs

theorem interfaceDecl_stays (stop : Span) (t : Token) (ts : List Token) :
    Stays stop ts (interfaceDecl stop t ts) := by
  unfold interfaceDecl
  refine (expect_stays stop .string .manifestPath ts).bind fun path rest₁ h₁ hrest₁ => ?_
  refine Stays.mono ?_ hrest₁
  refine (expect_stays stop .load .load rest₁).bind fun load rest₂ h₂ hrest₂ => ?_
  refine Stays.mono ?_ hrest₂
  refine (expect_stays stop .identifier .interfaceName rest₂).bind fun name rest₃ h₃ hrest₃ => ?_
  refine Stays.mono ?_ hrest₃
  exact (finish_stays stop (t :: ts) rest₃ _).bind fun ending rest₄ h₄ hrest₄ => .ok hrest₄

theorem interfaces_faults (stop : Span) : ∀ (ts : List Token) {e : ParseError},
    interfaces stop ts = .error e → FailsAt stop ts e
  | [], e, h => by
    rw [interfaces] at h
    cases h
  | t :: ts, e, h => by
    rw [interfaces] at h
    split at h
    · have hstays := interfaceDecl_stays stop t ts
      rcases hfirst : interfaceDecl stop t ts with e' | ⟨first, rest, hrest⟩
      · rw [hfirst] at h hstays
        cases h
        exact FailsAt.mono hstays (List.suffix_cons t ts)
      · rw [hfirst] at h hstays
        change (interfaces stop rest >>= fun more => .ok (first :: more.1, more.2)) = _ at h
        rcases hmore : interfaces stop rest with e' | more
        · rw [hmore] at h
          cases h
          exact (interfaces_faults stop rest hmore).mono (hstays.trans (List.suffix_cons t ts))
        · rw [hmore] at h
          cases h
    · cases h
termination_by ts => ts.length

theorem statements_faults (stop : Span) : ∀ (ts : List Token) {e : ParseError},
    statements stop ts = .error e → FailsAt stop ts e
  | [], e, h => by
    rw [statements] at h
    cases h
  | t :: ts, e, h => by
    rw [statements] at h
    have hstays := statement_stays stop (t :: ts)
    rcases hfirst : statement stop (t :: ts) with e' | ⟨first, rest, hrest⟩
    · rw [hfirst] at h hstays
      cases h
      exact hstays
    · rw [hfirst] at h hstays
      change (statements stop rest >>= fun more => .ok (first :: more)) = _ at h
      rcases hmore : statements stop rest with e' | more
      · rw [hmore] at h
        cases h
        have hle : rest.length ≤ ts.length := Nat.le_of_lt_succ hrest
        exact (statements_faults stop rest hmore).mono hstays
      · rw [hmore] at h
        cases h
termination_by ts => ts.length

theorem program_faults {list : TokenList} {e : ParseError} (h : program list = .error e) :
    FailsAt list.stop list.tokens e := by
  unfold program at h
  rcases hdeclared : interfaces list.stop list.tokens with e' | ⟨declared, rest⟩
  · rw [hdeclared] at h
    cases h
    exact interfaces_faults _ _ hdeclared
  · rw [hdeclared] at h
    change (statements list.stop rest >>= fun inner =>
      .ok (rootNode list.stop declared inner)) = _ at h
    rcases hinner : statements list.stop rest with e' | inner
    · rw [hinner] at h
      cases h
      obtain ⟨used, hused, -⟩ := interfaces_front list.stop list.tokens hdeclared
      exact (statements_faults _ _ hinner).mono ⟨used, hused.symm⟩
    · rw [hinner] at h
      cases h

/-- Where brackets nest deepest there is a token. -/
theorem mem_of_deepest {depth : Nat} {found : Nat × Option Token} {ts : List Token} {t : Token}
    (h : (deepest depth found ts).2 = some t) : found.2 = some t ∨ t ∈ ts := by
  have opened {depth : Nat} {found : Nat × Option Token} {u : Token} {rest : List Token}
      (h : (if depth + 1 > found.1 then (depth + 1, some u) else found).2 = some t ∨ t ∈ rest) :
      found.2 = some t ∨ t ∈ u :: rest := by
    rcases h with h | h
    · split at h
      · exact .inr (Option.some.inj h ▸ List.mem_cons_self)
      · exact .inl h
    · exact .inr (List.mem_cons_of_mem u h)
  fun_induction deepest depth found ts with
  | case1 => exact .inl h
  | case2 _ _ _ _ _ _ ih | case3 _ _ _ _ _ _ ih | case4 _ _ _ _ _ _ ih
  | case8 _ _ _ _ _ _ _ _ ih => exact opened (ih h)
  | case5 _ _ _ _ _ ih | case6 _ _ _ _ _ ih | case7 _ _ _ _ _ ih
  | case9 _ _ _ _ _ _ _ ih | case10 _ _ _ _ _ _ _ _ _ _ _ ih =>
    exact (ih h).imp id (List.mem_cons_of_mem _)

theorem programWithin_faults {limit : Option Nat} {list : TokenList} {e : ParseError}
    (h : programWithin limit list = .error e) : FailsAt list.stop list.tokens e := by
  unfold programWithin at h
  split at h
  · rename_i limit depth t hdeepest
    split at h
    · cases h
      have hmem := mem_of_deepest (congrArg Prod.snd hdeepest)
      exact .inr ⟨t, hmem.resolve_left nofun, rfl⟩
    · exact program_faults h
  · exact program_faults h

end SamScript.Parser

namespace SamScript

/-- A text that is no program is blamed on a part of it. -/
theorem Tree.ofSource_faults {bounds : Bounds} {file : Option String} {source : String}
    {e : SourceError} (h : Tree.ofSource bounds file source = .error e) (lines : List String) :
    ∃ s part, (e.diagnostic lines).span = some s ∧ s.Covers source.toList part := by
  unfold Tree.ofSource at h
  split at h
  · rename_i e' hlex
    cases h
    obtain ⟨part, hpart⟩ := tokenize_faults hlex
    exact ⟨e'.span, part, rfl, hpart⟩
  · rename_i list hlist
    split at h
    · rename_i e' hparse
      cases h
      obtain ⟨-, hstands, -⟩ := tokenize_places hlist
      rcases Parser.programWithin_faults hparse with hstop | ⟨t, ht, hspan⟩
      · refine ⟨e'.span, [], rfl, ?_⟩
        rw [hstop]
        exact tokenize_stop hlist
      · exact ⟨e'.span, t.lexeme.toList, rfl, hspan ▸ (hstands t ht).covers⟩
    · cases h

end SamScript
