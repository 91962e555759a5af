/-
Two parses side by side. Every production keeps a correspondence that is
`Lockstep`: it reads nodes that correspond from tokens that correspond and leaves
such tokens, or it fails in both runs. The theorems follow the productions one
by one, then whole programs, the measure of the one run going down with its
tokens, and end with the limit on how deep brackets nest
(`Lockstep.reads_programWithin`).
-/
import Mathlib.Data.List.Forall2
import SamScript.Proofs.Tree.Sides

namespace SamScript.Parser

open Node

namespace Lockstep

variable {strict : Prop} {token : Token → Token → Prop}
  {lists : List Token → List Token → Prop} {nodes : List Node → List Node → Prop}

-- ============================================================= productions

mutual

theorem reads_expression (h : Lockstep strict token lists nodes) (stop stop' : Span)
    (ts us : List Token) (hts : lists ts us) :
    ReadsAlike strict lists (fun n m => nodes [n] [m]) (expression stop ts)
      (expression stop' us) := by
  rw [expression, expression]
  exact h.reads_binary stop stop' 0 ts us hts
termination_by 8 * ts.length + 3

theorem reads_binary (h : Lockstep strict token lists nodes) (stop stop' : Span)
    (least : Nat) (ts us : List Token) (hts : lists ts us) :
    ReadsAlike strict lists (fun n m => nodes [n] [m]) (binary stop least ts)
      (binary stop' least us) := by
  rw [binary, binary]
  refine (h.reads_postfixExpr stop stop' ts us hts).bind
    fun left rest hl left' rest' hl' hleft hrest => ?_
  exact h.reads_operators stop stop' least _ _ hleft rest rest' hl hl' hrest
termination_by 8 * ts.length + 2

theorem reads_operators (h : Lockstep strict token lists nodes) (stop stop' : Span)
    (least bound bound' : Nat) {left left' : Node} (hleft : nodes [left] [left'])
    (ts us : List Token) (hl : ts.length < bound) (hl' : us.length < bound')
    (hts : lists ts us) :
    ReadsAlike strict lists (fun n m => nodes [n] [m]) (operators stop least bound left ts hl)
      (operators stop' least bound' left' us hl') := by
  cases h.view hts with
  | nil =>
    rw [operators, operators]
    exact .ok hleft hts
  | @cons op op' ts us hop hrest =>
    rw [operators, operators, h.kind hop]
    cases hp : precedence? op.kind with
    | none => exact .ok hleft hts
    | some p =>
      dsimp only
      split
      · refine (h.reads_binary stop stop' (p + 1) ts us hrest).bind
          fun right rest hr right' rest' hr' hright hrest => ?_
        refine h.reads_operators stop stop' least _ _ ?_ rest rest' _ _ hrest
        exact h.branch rfl
          (h.cons (h.inField _ hleft) (h.cons (h.mark hop) (h.inField _ hright)))
      · exact .ok hleft hts
  | spared hloose hk hstops =>
    rw [operators_stopped hl ((stopped_closer (hk ▸ by decide)).mono (Nat.zero_le _)),
      operators_stopped hl' ((stopped_of_stoppers hstops).mono (Nat.zero_le _))]
    exact .ok hleft hts
termination_by 8 * ts.length
decreasing_by
  all_goals
    subst_vars
    try simp only [List.length_cons]
    omega

theorem reads_postfixExpr (h : Lockstep strict token lists nodes) (stop stop' : Span)
    (ts us : List Token) (hts : lists ts us) :
    ReadsAlike strict lists (fun n m => nodes [n] [m]) (postfixExpr stop ts)
      (postfixExpr stop' us) := by
  rw [postfixExpr, postfixExpr]
  refine (h.reads_primary stop stop' ts us hts).bind
    fun first rest hl first' rest' hl' hfirst hrest => ?_
  exact h.reads_suffixes stop stop' _ _ hfirst rest rest' hl hl' hrest
termination_by 8 * ts.length + 1

theorem reads_suffixes (h : Lockstep strict token lists nodes) (stop stop' : Span)
    (bound bound' : Nat) {before before' : Node} (hbefore : nodes [before] [before'])
    (ts us : List Token) (hl : ts.length < bound) (hl' : us.length < bound')
    (hts : lists ts us) :
    ReadsAlike strict lists (fun n m => nodes [n] [m]) (suffixes stop bound before ts hl)
      (suffixes stop' bound' before' us hl') := by
  cases h.view hts with
  | nil =>
    rw [suffixes, suffixes]
    exact .ok hbefore hts
  | @cons t u ts us ht hrest =>
    rw [suffixes, suffixes, h.kind ht]
    split
    · refine (h.reads_listed stop stop' (some .arguments) .closeParen (by decide) ts us hrest).bind
        fun items rest hr items' rest' hr' hitems hrest => ?_
      refine h.reads_suffixes stop stop' _ _ ?_ rest rest' _ _ hrest
      exact h.branch rfl (h.cons (h.inField _ hbefore) (h.cons (h.mark ht) hitems))
    · split
      · refine (h.reads_expect .attributeName (by decide) hrest).bind
          fun name rest hr name' rest' hr' hname hrest => ?_
        refine h.reads_suffixes stop stop' _ _ ?_ rest rest' _ _ hrest
        exact h.branch rfl (h.cons (h.inField _ hbefore)
          (h.cons (h.mark ht) (h.inField _ (h.name hname.1))))
      · exact .ok hbefore hts
  | spared hloose hk hstops =>
    rw [suffixes_stopped hl (stopped_closer (hk ▸ by decide)),
      suffixes_stopped hl' (stopped_of_stoppers hstops)]
    exact .ok hbefore hts
termination_by 8 * ts.length
decreasing_by
  all_goals
    subst_vars
    try simp only [List.length_cons]
    omega

theorem reads_primary (h : Lockstep strict token lists nodes) (stop stop' : Span)
    (ts us : List Token) (hts : lists ts us) :
    ReadsAlike strict lists (fun n m => nodes [n] [m]) (primary stop ts) (primary stop' us) := by
  cases h.view hts with
  | nil =>
    rw [primary, primary]
    exact h.fails .expression hts
  | @cons t u ts us ht hrest hsign hend =>
    have hfails {α β : Type} (R : α → β → Prop) : EndsAlike strict R
        (.error (missing stop .expression (t :: ts)))
        (.error (missing stop' .expression (u :: us))) := h.fails .expression hts
    rw [primary.eq_def, primary.eq_def stop']
    dsimp only
    rw [h.kind ht]
    cases hk : t.kind with
    | number => exact .ok (h.number ht) hrest
    | minus =>
      dsimp only
      cases h.view hrest with
      | nil => exact hfails _
      | @cons n n' _ _ hn hafter =>
        have hsame : (n'.kind = .number ∧ touches u n') ↔ n.kind = .number ∧ touches t n := by
          rw [Bool.eq_iff_iff] at hsign
          simpa [isSign, h.kind ht, hk] using hsign
        dsimp only
        by_cases hglued : n.kind = .number ∧ touches t n
        · rw [if_pos hglued, if_pos (hsame.2 hglued)]
          exact .ok (h.negative ht hn hglued.2 (hsame.2 hglued).2) hafter
        · rw [if_neg hglued, if_neg fun he => hglued (hsame.1 he)]
          exact hfails _
      | spared hloose hk =>
        dsimp only
        exact .loose hloose (if_neg fun he => by rw [hk] at he; cases he.1)
    | string => exact .ok (h.branch rfl (h.string ht hk)) hrest
    | identifier => exact .ok (h.name ht) hrest
    | lparen =>
      have hhead := h.sees_lambdaHead hrest (hend (by rw [hk]; decide))
      dsimp only
      split
      · rename_i head after hl
        have hlt := length_of_lambdaHead? hl
        split
        · rename_i head' after' hl'
          rw [hl, hl'] at hhead
          cases hhead with
          | some hhead =>
            refine (h.reads_block stop stop' after after' hhead.2).bind
              fun body rest hr body' rest' hr' hbody hrest => ?_
            exact .ok (h.branch rfl
              (h.cons (h.mark ht) (h.append hhead.1 (h.inField _ hbody)))) hrest
        · rename_i hl'
          rw [hl, hl'] at hhead
          cases hhead
      · rename_i hl
        split
        · rename_i hl'
          rw [hl, hl'] at hhead
          cases hhead
        · refine (h.reads_expression stop stop' ts us hrest).bind
            fun inner rest hr inner' rest' hr' hinner hrest => ?_
          refine (h.reads_expect .closeParen (by decide) hrest).bind
            fun c rest hr c' rest' hr' hc hrest => ?_
          exact .ok hinner hrest
    | lbracket =>
      refine (h.reads_listed stop stop' none .closeBracket (by decide) ts us hrest).bind
        fun items rest hr items' rest' hr' hitems hrest => ?_
      exact .ok (h.branch rfl (h.cons (h.mark ht) hitems)) hrest
    | if_ =>
      refine (h.reads_conditional stop stop' ht ts us hrest).bind
        fun n rest hr m rest' hr' hn hrest => ?_
      exact .ok hn hrest
    | _ => exact hfails _
  | spared hloose hk => exact .loose hloose (primary_semicolon hk)
termination_by 8 * ts.length
decreasing_by
  all_goals
    subst_vars
    try simp only [List.length_cons]
    omega

theorem reads_listed (h : Lockstep strict token lists nodes) (stop stop' : Span)
    (field : Option Field) {close : TokenKind} (expected : Expected) (hclose : close ≠ .semicolon)
    (ts us : List Token) (hts : lists ts us) :
    ReadsAlike strict lists nodes (listed stop field close expected ts)
      (listed stop' field close expected us) := by
  cases h.view hts with
  | nil =>
    rw [listed, listed]
    exact h.reads_items stop stop' field expected hclose [] [] hts
  | @cons t u ts us ht hrest =>
    rw [listed, listed, h.kind ht]
    split
    · exact .ok (h.mark ht) hrest
    · exact h.reads_items stop stop' field expected hclose (t :: ts) (u :: us) hts
  | spared hloose hk =>
    rw [listed_item (hk ▸ hclose.symm)]
    exact .loose hloose (items_semicolon hk)
termination_by 8 * ts.length + 5
decreasing_by
  all_goals
    subst_vars
    try simp only [List.length_cons]
    omega

theorem reads_items (h : Lockstep strict token lists nodes) (stop stop' : Span)
    (field : Option Field) {close : TokenKind} (expected : Expected) (hclose : close ≠ .semicolon)
    (ts us : List Token) (hts : lists ts us) :
    ReadsAlike strict lists nodes (items stop field close expected ts)
      (items stop' field close expected us) := by
  rw [items, items]
  refine (h.reads_expression stop stop' ts us hts).bind
    fun item rest hl item' rest' hl' hitem hrest => ?_
  have hitem := h.inOptional field hitem
  cases h.view hrest with
  | nil => exact h.fails expected hrest
  | @cons t u after after' ht hafter =>
    have hlt : after.length < ts.length := Nat.lt_of_succ_lt hl
    dsimp only
    rw [h.kind ht]
    split
    · refine (h.reads_listed stop stop' field expected hclose after after' hafter).bind
        fun more rest hr more' rest' hr' hmore hrest => ?_
      exact .ok (h.cons hitem (h.cons (h.mark ht) hmore)) hrest
    · split
      · exact .ok (h.cons hitem (h.mark ht)) hafter
      · exact h.fails expected hrest
  | spared hloose hk =>
    dsimp only
    rw [if_neg (by rw [hk]; decide), if_neg (hk ▸ hclose.symm)]
    exact .loose hloose rfl
termination_by 8 * ts.length + 4

theorem reads_conditional (h : Lockstep strict token lists nodes) (stop stop' : Span)
    {t u : Token} (ht : token t u) (ts us : List Token) (hts : lists ts us) :
    ReadsAlike strict lists (fun n m => nodes [n] [m]) (conditional stop t ts)
      (conditional stop' u us) := by
  rw [conditional, conditional]
  refine (h.reads_expect .openAfterIf (by decide) hts).bind fun o r₁ h₁ o' r₁' h₁' ho hr₁ => ?_
  refine (h.reads_expression stop stop' r₁ r₁' hr₁).bind
    fun condition r₂ h₂ condition' r₂' h₂' hcondition hr₂ => ?_
  refine (h.reads_expect .closeParen (by decide) hr₂).bind fun c r₃ h₃ c' r₃' h₃' hc hr₃ => ?_
  refine (h.reads_block stop stop' r₃ r₃' hr₃).bind
    fun consequence r₄ h₄ consequence' r₄' h₄' hconsequence hr₄ => ?_
  refine (h.reads_alternative stop stop' _ _ r₄ r₄' _ _ hr₄).bind
    fun alternative r₅ h₅ alternative' r₅' h₅' halternative hr₅ => ?_
  refine .ok (h.branch rfl (h.cons (h.mark ht) ?_)) hr₅
  refine h.append ?_ halternative
  exact h.cons (h.mark ho.1) (h.cons (h.inField _ hcondition)
    (h.cons (h.mark hc.1) (h.inField _ hconsequence)))
termination_by 8 * ts.length + 1

theorem reads_alternative (h : Lockstep strict token lists nodes) (stop stop' : Span)
    (bound bound' : Nat) (ts us : List Token) (hl : ts.length < bound) (hl' : us.length < bound')
    (hts : lists ts us) :
    ReadsAlike strict lists nodes (alternative? stop bound ts hl)
      (alternative? stop' bound' us hl') := by
  cases h.view hts with
  | nil =>
    rw [alternative?, alternative?]
    exact .ok h.nil hts
  | @cons t u ts us ht hrest =>
    have hkind := h.kind ht
    by_cases helse : t.kind = .else_
    · cases h.view hrest with
      | nil =>
        rw [alternative?, alternative?, if_pos helse, if_pos (hkind.trans helse)]
        exact h.fails .openBrace hrest
      | @cons i j ts us hi hafter =>
        rw [alternative?, alternative?, if_pos helse, if_pos (hkind.trans helse), h.kind hi]
        split
        · refine (h.reads_conditional stop stop' hi ts us hafter).bind
            fun inner rest hr inner' rest' hr' hinner hrest => ?_
          exact .ok (h.cons (h.mark ht) (h.inField _ hinner)) hrest
        · refine (h.reads_block stop stop' (i :: ts) (j :: us) hrest).bind
            fun inner rest hr inner' rest' hr' hinner hrest => ?_
          exact .ok (h.cons (h.mark ht) (h.inField _ hinner)) hrest
      | spared hloose hk =>
        rw [alternative?, if_pos helse, if_neg (by rw [hk]; decide), block_semicolon hk]
        exact .loose hloose rfl
    · rw [alternative?_stopped hl (.cons helse), alternative?_stopped hl' (.cons (hkind ▸ helse))]
      exact .ok h.nil hts
  | spared hloose hk hstops =>
    rw [alternative?_stopped hl (.cons (by rw [hk]; decide)),
      alternative?_stopped hl' fun u hu => (stopped_of_stoppers hstops u hu).2.2.1]
    exact .ok h.nil hts
termination_by 8 * ts.length + 1
decreasing_by
  all_goals
    subst_vars
    try simp only [List.length_cons]
    omega

theorem reads_block (h : Lockstep strict token lists nodes) (stop stop' : Span)
    (ts us : List Token) (hts : lists ts us) :
    ReadsAlike strict lists (fun n m => nodes [n] [m]) (block stop ts) (block stop' us) := by
  rw [block, block]
  refine (h.reads_expect .openBrace (by decide) hts).bind fun o rest hl o' rest' hl' ho hrest => ?_
  refine (h.reads_blockItems stop stop' rest rest' hrest).bind
    fun inner rest hr inner' rest' hr' hinner hrest => ?_
  exact .ok (h.branch rfl (h.cons (h.mark ho.1) hinner)) hrest
termination_by 8 * ts.length

theorem reads_blockItems (h : Lockstep strict token lists nodes) (stop stop' : Span)
    (ts us : List Token) (hts : lists ts us) :
    ReadsAlike strict lists nodes (blockItems stop ts) (blockItems stop' us) := by
  cases h.view hts with
  | nil =>
    rw [blockItems, blockItems]
    exact h.fails .closeBrace hts
  | @cons t u ts us ht hrest =>
    rw [blockItems, blockItems, h.kind ht]
    split
    · exact .ok (h.mark ht) hrest
    · refine (h.reads_statement stop stop' (t :: ts) (u :: us) hts).bind
        fun first rest hr first' rest' hr' hfirst hrest => ?_
      have hle : rest.length ≤ ts.length := Nat.le_of_lt_succ hr
      refine (h.reads_blockItems stop stop' rest rest' hrest).bind
        fun more rest hr more' rest' hr' hmore hrest => ?_
      exact .ok (h.cons hfirst hmore) hrest
  | spared hloose hk =>
    rw [blockItems, if_neg (by rw [hk]; decide), statement_semicolon hk]
    exact .loose hloose rfl
termination_by 8 * ts.length + 7
decreasing_by
  all_goals
    subst_vars
    try simp only [List.length_cons]
    omega

theorem reads_statement (h : Lockstep strict token lists nodes) (stop stop' : Span)
    (ts us : List Token) (hts : lists ts us) :
    ReadsAlike strict lists (fun n m => nodes [n] [m]) (statement stop ts)
      (statement stop' us) := by
  cases h.view hts with
  | nil =>
    rw [statement, statement]
    exact h.fails .expression hts
  | @cons t u ts us ht hrest _ hend =>
    have hplain := h.reads_plainStatement stop stop' (t :: ts) (u :: us) hts
    have hkind := h.kind ht
    cases hk : t.kind with
    | let_ =>
      rw [statement.eq_def, statement.eq_def stop']
      dsimp only
      rw [hkind, hk]
      refine (h.reads_declarators stop stop' ts us hrest).bind
        fun inner rest hr inner' rest' hr' hinner hrest => ?_
      refine (h.reads_finish _ _ hts hrest).bind
        fun ending rest hr ending' rest' hr' hending hrest => ?_
      exact .ok (h.branch rfl (h.cons (h.mark ht) (h.append hinner hending))) hrest
    | return_ =>
      by_cases hbare : Heads (fun k => k = .semicolon ∨ k = .rbrace) ts
      · have hbare' : Heads (fun k => k = .semicolon ∨ k = .rbrace) us := by
          cases h.view hrest with
          | nil => exact hbare
          | cons ha => exact .cons (h.kind ha ▸ hbare _ rfl)
          | @spared s us _ hs hstops =>
            exact (hend (by rw [hk]; decide) s hs rfl hstops).mono fun _ => .inr
        rw [statement_return hk hbare, statement_return (hkind.trans hk) hbare']
        refine (h.reads_finish _ _ hts hrest).bind
          fun ending rest hr ending' rest' hr' hending hrest => ?_
        exact .ok (h.branch rfl (h.cons (h.mark ht) hending)) hrest
      · cases h.view hrest with
        | nil => exact absurd .nil hbare
        | @cons v w ts us hv =>
          have hvalued : ¬ (v.kind = .semicolon ∨ v.kind = .rbrace) := fun he => hbare (.cons he)
          rw [statement.eq_def, statement.eq_def stop']
          dsimp only
          rw [hkind, hk]
          dsimp only
          rw [h.kind hv, if_neg hvalued, if_neg hvalued]
          refine (h.reads_expression stop stop' (v :: ts) (w :: us) hrest).bind
            fun value rest hr value' rest' hr' hvalue hrest => ?_
          refine (h.reads_finish _ _ hts hrest).bind
            fun ending rest hr ending' rest' hr' hending hrest => ?_
          exact .ok (h.branch rfl (h.cons (h.mark ht) (h.cons (h.inField _ hvalue) hending))) hrest
        | spared _ hs => exact absurd (.cons (.inl hs)) hbare
    | _ =>
      rw [statement.eq_def, statement.eq_def stop']
      dsimp only
      rw [hkind, hk]
      exact hplain
  | spared hloose hk => exact .loose hloose (statement_semicolon hk)
termination_by 8 * ts.length + 6
decreasing_by
  all_goals
    subst_vars
    try simp only [List.length_cons]
    omega

theorem reads_plainStatement (h : Lockstep strict token lists nodes) (stop stop' : Span)
    (ts us : List Token) (hts : lists ts us) :
    ReadsAlike strict lists (fun n m => nodes [n] [m]) (plainStatement stop ts)
      (plainStatement stop' us) := by
  cases h.view hts with
  | nil =>
    rw [plainStatement, plainStatement]
    · exact h.reads_expressionStatement stop stop' [] [] hts
    · simp
    · simp
  | @cons t u ts us ht hrest =>
    have hplain := h.reads_expressionStatement stop stop' (t :: ts) (u :: us) hts
    cases h.view hrest with
    | nil =>
      rw [plainStatement_eq .nil, plainStatement_eq .nil]
      exact hplain
    | @cons v w ts us hv hafter =>
      rw [plainStatement, plainStatement, h.kind ht, h.kind hv]
      split
      · refine (h.reads_expression stop stop' ts us hafter).bind
          fun value rest hr value' rest' hr' hvalue hrest => ?_
        refine (h.reads_finish _ _ hts hrest).bind
          fun ending rest hr ending' rest' hr' hending hrest => ?_
        exact .ok (h.branch rfl (h.cons (h.inField _ (h.name ht))
          (h.cons (h.mark hv) (h.cons (h.inField _ hvalue) hending)))) hrest
      · exact hplain
    | spared _ hk hstops =>
      have hassign : ∀ k ∈ stoppers, k ≠ .assign := by decide
      rw [plainStatement_eq (.cons (by rw [hk]; decide)), plainStatement_eq (hstops.mono hassign)]
      exact hplain
  | spared hloose hk => exact .loose hloose (plainStatement_semicolon hk)
termination_by 8 * ts.length + 5
decreasing_by
  all_goals
    subst_vars
    try simp only [List.length_cons]
    omega

theorem reads_expressionStatement (h : Lockstep strict token lists nodes) (stop stop' : Span)
    (ts us : List Token) (hts : lists ts us) :
    ReadsAlike strict lists (fun n m => nodes [n] [m]) (expressionStatement stop ts)
      (expressionStatement stop' us) := by
  rw [expressionStatement, expressionStatement]
  refine (h.reads_expression stop stop' ts us hts).bind
    fun inner rest hl inner' rest' hl' hinner hrest => ?_
  refine (h.reads_finish _ _ hts hrest).bind
    fun ending rest hr ending' rest' hr' hending hrest => ?_
  exact .ok (h.branch rfl (h.cons hinner hending)) hrest
termination_by 8 * ts.length + 4

theorem reads_declarators (h : Lockstep strict token lists nodes) (stop stop' : Span)
    (ts us : List Token) (hts : lists ts us) :
    ReadsAlike strict lists nodes (declarators stop ts) (declarators stop' us) := by
  rw [declarators, declarators]
  refine (h.reads_declarator stop stop' ts us hts).bind
    fun first rest hl first' rest' hl' hfirst hrest => ?_
  cases h.view hrest with
  | nil => exact .ok hfirst hrest
  | @cons t u after after' ht hafter =>
    have hlt : after.length < ts.length := Nat.lt_of_succ_lt hl
    dsimp only
    rw [h.kind ht]
    split
    · refine (h.reads_declarators stop stop' after after' hafter).bind
        fun more rest hr more' rest' hr' hmore hrest => ?_
      exact .ok (h.cons hfirst (h.cons (h.mark ht) hmore)) hrest
    · exact .ok hfirst hrest
  | spared _ hk hstops =>
    have hcomma : ∀ k ∈ stoppers, k ≠ .comma := by decide
    dsimp only
    rw [if_neg (by rw [hk]; decide)]
    cases rest' with
    | nil => exact .ok hfirst hrest
    | cons v after =>
      dsimp only
      rw [if_neg (hcomma _ (hstops v rfl))]
      exact .ok hfirst hrest
termination_by 8 * ts.length + 2

theorem reads_declarator (h : Lockstep strict token lists nodes) (stop stop' : Span)
    (ts us : List Token) (hts : lists ts us) :
    ReadsAlike strict lists (fun n m => nodes [n] [m]) (declarator stop ts)
      (declarator stop' us) := by
  rw [declarator, declarator]
  refine (h.reads_expect .variableName (by decide) hts).bind
    fun name rest hl name' rest' hl' hname hrest => ?_
  have hvariable := h.inField .variable_ (h.name hname.1)
  cases h.view hrest with
  | nil => exact .ok (h.branch rfl hvariable) hrest
  | @cons t u after after' ht hafter =>
    have hlt : after.length < ts.length := Nat.lt_of_succ_lt hl
    dsimp only
    rw [h.kind ht]
    split
    · refine (h.reads_expression stop stop' after after' hafter).bind
        fun value rest hr value' rest' hr' hvalue hrest => ?_
      exact .ok (h.branch rfl (h.cons hvariable (h.cons (h.mark ht) (h.inField _ hvalue)))) hrest
    · exact .ok (h.branch rfl hvariable) hrest
  | spared _ hk hstops =>
    have hassign : ∀ k ∈ stoppers, k ≠ .assign := by decide
    dsimp only
    rw [if_neg (by rw [hk]; decide)]
    cases rest' with
    | nil => exact .ok (h.branch rfl hvariable) hrest
    | cons v after =>
      dsimp only
      rw [if_neg (hassign _ (hstops v rfl))]
      exact .ok (h.branch rfl hvariable) hrest
termination_by 8 * ts.length + 1

end

-- ================================================================ programs

theorem reads_interfaceDecl (h : Lockstep strict token lists nodes) (stop stop' : Span)
    {t u : Token} (ht : token t u) {ts us : List Token} (hwhole : lists (t :: ts) (u :: us))
    (hts : lists ts us) :
    ReadsAlike strict lists (fun n m => nodes [n] [m]) (interfaceDecl stop t ts)
      (interfaceDecl stop' u us) := by
  unfold interfaceDecl
  refine (h.reads_expect .manifestPath (by decide) hts).bind
    fun path r₁ h₁ path' r₁' h₁' hpath hr₁ => ?_
  refine (h.reads_expect .load (by decide) hr₁).bind fun load r₂ h₂ load' r₂' h₂' hload hr₂ => ?_
  refine (h.reads_expect .interfaceName (by decide) hr₂).bind
    fun name r₃ h₃ name' r₃' h₃' hname hr₃ => ?_
  refine (h.reads_finish _ _ hwhole hr₃).bind fun ending r₄ h₄ ending' r₄' h₄' hending hr₄ => ?_
  refine .ok (h.branch rfl (h.cons (h.mark ht) ?_)) hr₄
  exact h.cons (h.inField _ (h.string hpath.1 hpath.2)) (h.cons (h.mark hload.1)
    (h.cons (h.inField _ (h.name hname.1)) hending))

theorem reads_statements (h : Lockstep strict token lists nodes) (stop stop' : Span)
    (ts us : List Token) (hts : lists ts us) :
    EndsAlike strict nodes (statements stop ts) (statements stop' us) := by
  cases h.view hts with
  | nil =>
    rw [statements, statements]
    exact .ok h.nil
  | cons =>
    rw [statements, statements]
    refine EndsAlike.bind (h.reads_statement stop stop' _ _ hts) fun first first' hfirst => ?_
    have hlt := first.shorter
    refine (h.reads_statements stop stop' _ _ hfirst.2).bind fun more more' hmore => ?_
    exact .ok (h.cons hfirst.1 hmore)
  | spared hloose hk =>
    rw [statements, statement_semicolon hk]
    exact .loose hloose rfl
termination_by ts.length

end Lockstep

/-- The interface declarations and the statements of a program. -/
def sections (stop : Span) (ts : List Token) : Except ParseError (List Node × List Node) := do
  let (declared, rest) ← interfaces stop ts
  let inner ← statements stop rest
  return (declared, inner)

theorem program_eq (list : TokenList) : program list =
    (sections list.stop list.tokens).map fun (declared, inner) =>
      rootNode list.stop declared inner := by
  unfold program sections
  cases interfaces list.stop list.tokens with
  | error e => rfl
  | ok declared =>
    obtain ⟨declared, rest⟩ := declared
    dsimp only [bind, Except.bind]
    cases statements list.stop rest with
    | error e => rfl
    | ok inner => cases declared <;> rfl

section

variable {stop : Span} {t : Token} {ts : List Token}

theorem sections_interface (hk : t.kind = .interface_) : sections stop (t :: ts) = (do
    let first ← interfaceDecl stop t ts
    let (declared, inner) ← sections stop first.rest
    return (first.value :: declared, inner)) := by
  unfold sections
  rw [interfaces, if_pos hk]
  cases interfaceDecl stop t ts with
  | error e => rfl
  | ok first =>
    dsimp only [bind, Except.bind]
    cases interfaces stop first.rest with
    | error e => rfl
    | ok declared =>
      obtain ⟨declared, rest⟩ := declared
      dsimp only [pure, Except.pure]
      cases statements stop rest <;> rfl

theorem sections_statements (h : Heads (· ≠ .interface_) ts) : sections stop ts = (do
    let inner ← statements stop ts
    return ([], inner)) := by
  unfold sections
  cases ts with
  | nil =>
    rw [interfaces]
    rfl
  | cons t ts =>
    rw [interfaces, if_neg (h t rfl)]
    rfl

end

namespace Lockstep

/-- Where a semicolon stands before the declarations end, the statements fail
on it. -/
theorem reads_sections (h : Lockstep strict token lists nodes) (stop stop' : Span)
    (ts us : List Token) (hts : lists ts us) :
    EndsAlike strict (fun x y => List.Forall₂ (fun n m => nodes [n] [m]) x.1 y.1 ∧ nodes x.2 y.2)
      (sections stop ts) (sections stop' us) := by
  have hstatements := h.reads_statements stop stop' ts us hts
  cases h.view hts with
  | nil =>
    rw [sections_statements .nil, sections_statements .nil]
    exact hstatements.bind fun inner inner' hinner => .ok ⟨.nil, hinner⟩
  | @cons t u ts us ht hrest =>
    have hkind := h.kind ht
    by_cases hk : t.kind = .interface_
    · rw [sections_interface hk, sections_interface (hkind.trans hk)]
      refine EndsAlike.bind (h.reads_interfaceDecl stop stop' ht hts hrest)
        fun first first' hfirst => ?_
      have hlt := first.shorter
      refine (h.reads_sections stop stop' _ _ hfirst.2).bind fun more more' hmore => ?_
      exact .ok ⟨.cons hfirst.1 hmore.1, hmore.2⟩
    · rw [sections_statements (.cons hk), sections_statements (.cons (hkind ▸ hk))]
      exact hstatements.bind fun inner inner' hinner => .ok ⟨.nil, hinner⟩
  | spared hloose hk =>
    rw [sections_statements (.cons (by rw [hk]; decide)), statements, statement_semicolon hk]
    exact .loose hloose rfl
termination_by ts.length

theorem gathered (h : Lockstep strict token lists nodes) {ns ms : List Node}
    (hns : List.Forall₂ (fun n m => nodes [n] [m]) ns ms) :
    nodes (gathered ns) (gathered ms) := by
  have hall : nodes ns ms := by
    induction hns with
    | nil => exact h.nil
    | cons hn _ ih => exact h.cons hn ih
  cases hns with
  | nil => exact h.nil
  | cons => exact h.branch rfl hall

/-- Whole programs, with brackets as deep as they like. -/
theorem reads_program (h : Lockstep strict token lists nodes)
    (hroot : ∀ {extent extent' ns ms}, nodes ns ms →
      nodes [.mk .sourceFile true none extent ns] [.mk .sourceFile true none extent' ms])
    {list list' : TokenList} (hlists : lists list.tokens list'.tokens) :
    EndsAlike strict (fun n m => nodes [n] [m]) (program list) (program list') := by
  rw [program_eq, program_eq]
  have hsections := h.reads_sections list.stop list'.stop _ _ hlists
  generalize sections list.stop list.tokens = x, sections list'.stop list'.tokens = y at hsections
  cases hsections with
  | ok hparts => exact .ok (hroot (h.append (h.gathered hparts.1) hparts.2))
  | error hfault =>
    refine .error fun hs => ?_
    obtain ⟨fault, rfl, hsame⟩ := hfault hs
    exact ⟨fault, rfl, hsame⟩

end Lockstep

-- =================================================================== depth

/-- Whether a token opens a bracket, or an if that counts as one. -/
def deepens (t : Token) (rest : List Token) : Bool :=
  t.kind ∈ [.lparen, .lbracket, .lbrace] ||
    t.kind = .else_ && rest.head?.any (·.kind = .if_)

theorem deepest_cons (depth : Nat) (found : Nat × Option Token) (t : Token) (rest : List Token) :
    deepest depth found (t :: rest) =
      if deepens t rest then
        deepest (depth + 1) (if depth + 1 > found.1 then (depth + 1, some t) else found) rest
      else if t.kind ∈ [.rparen, .rbracket, .rbrace] then deepest (depth - 1) found rest
      else deepest depth found rest := by
  rw [deepest.eq_def]
  unfold deepens
  dsimp only
  generalize t.kind = kind
  cases rest with
  | nil => cases kind <;> rfl
  | cons i rest =>
    cases kind with
    | else_ =>
      by_cases hi : i.kind = .if_
      · simp [hi]
      · simp [hi]
    | _ => rfl

namespace Lockstep

theorem deepens_eq (h : Lockstep strict token lists nodes) {t u : Token} {ts us : List Token}
    (ht : token t u) (hrest : lists ts us) (hend : t.kind ≠ .rbrace → AtEnd ts us) :
    deepens u us = deepens t ts := by
  unfold deepens
  rw [h.kind ht]
  by_cases helse : t.kind = .else_
  · have hif : us.head?.any (·.kind = .if_) = ts.head?.any (·.kind = .if_) := by
      cases h.view hrest with
      | nil => rfl
      | cons ha =>
        dsimp only [List.head?_cons, Option.any_some]
        rw [h.kind ha]
      | @spared s us _ hk hstops =>
        have hbrace := hend (by rw [helse]; decide) s hk rfl hstops
        have hfirst : (s :: us).head?.any (·.kind = .if_) = false := by simp [hk]
        rw [hfirst]
        cases us with
        | nil => rfl
        | cons v us => simp [hbrace v rfl]
    rw [hif]
  · rw [decide_eq_false helse]
    rfl

/-- The brackets of both programs nest alike. -/
theorem deepest_eq (h : Lockstep strict token lists nodes) (ts us : List Token)
    (hts : lists ts us) (depth : Nat) {found found' : Nat × Option Token}
    (hdepth : found'.1 = found.1) (hsome : found'.2.isSome = found.2.isSome) :
    (deepest depth found' us).1 = (deepest depth found ts).1 ∧
      (deepest depth found' us).2.isSome = (deepest depth found ts).2.isSome := by
  cases h.view hts with
  | nil => exact ⟨hdepth, hsome⟩
  | @cons t u ts us ht hrest _ hend =>
    rw [deepest_cons, deepest_cons, h.deepens_eq ht hrest hend, h.kind ht]
    have ih := h.deepest_eq ts us hrest
    split
    · rw [hdepth]
      split
      · exact ih _ rfl rfl
      · exact ih _ hdepth hsome
    · split
      · exact ih _ hdepth hsome
      · exact ih _ hdepth hsome
  | @spared t us hloose hk hstops hrest =>
    have hclosed : deepens t us = false := by simp [deepens, hk]
    rw [deepest_cons, hclosed, hk]
    exact h.deepest_eq us us hrest depth hdepth hsome
termination_by ts.length

/-- Whole programs, with brackets as deep as a limit lets them be. -/
theorem reads_programWithin (h : Lockstep strict token lists nodes)
    (hroot : ∀ {extent extent' ns ms}, nodes ns ms →
      nodes [.mk .sourceFile true none extent ns] [.mk .sourceFile true none extent' ms])
    (limit : Option Nat) {list list' : TokenList} (hlists : lists list.tokens list'.tokens) :
    EndsAlike strict (fun n m => nodes [n] [m]) (programWithin limit list)
      (programWithin limit list') := by
  have hprogram := h.reads_program hroot hlists
  have hdeepest := h.deepest_eq _ _ hlists 0 (rfl : ((0, none) : Nat × Option Token).1 = _) rfl
  unfold programWithin
  generalize deepest 0 (0, none) list.tokens = found,
    deepest 0 (0, none) list'.tokens = found' at hdeepest
  obtain ⟨depth, deep⟩ := found
  obtain ⟨depth', deep'⟩ := found'
  obtain ⟨rfl, hsome⟩ : depth' = depth ∧ deep'.isSome = deep.isSome := hdeepest
  cases limit with
  | none => exact hprogram
  | some limit =>
    cases deep with
    | none =>
      cases deep' with
      | none => exact hprogram
      | some => cases hsome
    | some t =>
      cases deep' with
      | none => cases hsome
      | some u =>
        dsimp only
        split
        · exact .error fun _ => ⟨_, rfl, rfl⟩
        · exact hprogram

end Lockstep

end SamScript.Parser
