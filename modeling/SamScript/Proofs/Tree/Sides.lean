/-
What it takes for two parses to run side by side. The tokens of the one
correspond to those of the other, but where the first goes on with a semicolon
the second may do without it, if nothing goes on with the statement before it
(`Sides`). What has to be known of the correspondence, and of nodes that
correspond, is `Lockstep`; the theorems are about single tokens, the end of a
statement and the lookahead for a lambda.
-/
import SamScript.Proofs.Tree.Readback

namespace SamScript.Parser

open Node

variable {α β γ δ : Type} {m n k l : Nat}

-- =================================================================== sides

/-- Whether a token is a `-` that touches a number after it. -/
def isSign (t : Token) (rest : List Token) : Bool :=
  t.kind = .minus && rest.head?.any fun n => n.kind = .number && touches t n

/-- The kinds that can begin what comes after a statement and that go on with
none. -/
def stoppers : List TokenKind :=
  [.rbrace, .let_, .return_, .interface_, .number, .string, .identifier, .lbracket, .if_]

/-- Whether tokens are at their end or at a closing brace, if others go on with
one semicolon more. -/
def AtEnd (ts us : List Token) : Prop :=
  ∀ s, s.kind = .semicolon → ts = s :: us → Heads (· ∈ stoppers) us → Heads (· = .rbrace) us

/-- How tokens that are read side by side go on. Where the first ones go on with
a semicolon that the second ones do without, what follows stops whatever came
before; and it is a closing brace or the end, unless one came before. Runs that
are `strict` have the same semicolons. -/
inductive Sides (strict : Prop) (token : Token → Token → Prop)
    (lists : List Token → List Token → Prop) : List Token → List Token → Prop
  | nil : Sides strict token lists [] []
  | cons {t u : Token} {ts us : List Token} (ht : token t u) (hrest : lists ts us)
      (hsign : isSign u us = isSign t ts)
      (hend : t.kind ≠ .rbrace → AtEnd ts us) :
      Sides strict token lists (t :: ts) (u :: us)
  | spared {t : Token} {us : List Token} (hloose : ¬ strict) (hk : t.kind = .semicolon)
      (hstops : Heads (· ∈ stoppers) us) (hrest : lists us us) :
      Sides strict token lists (t :: us) us

/-- What token lists and nodes have to do with each other for two parses to run
side by side. -/
structure Lockstep (strict : Prop) (token : Token → Token → Prop)
    (lists : List Token → List Token → Prop) (nodes : List Node → List Node → Prop) : Prop where
  view : ∀ {ts us}, lists ts us → Sides strict token lists ts us
  kind : ∀ {t u}, token t u → u.kind = t.kind
  lexeme : strict → ∀ {t u}, token t u → u.lexeme = t.lexeme
  /-- A closing brace before the one rest is there before the other. -/
  brace : ∀ {ts us rest rest'}, lists ts us → lists rest rest' → rest.length < ts.length →
    rest'.length < us.length → (lastBefore ts rest).any (·.kind = .rbrace) →
    (lastBefore us rest').any (·.kind = .rbrace)
  brace_iff : strict → ∀ {ts us rest rest'}, lists ts us → lists rest rest' →
    ((lastBefore us rest').any (·.kind = .rbrace) ↔ (lastBefore ts rest).any (·.kind = .rbrace))
  /-- Where a semicolon is missing it may be. -/
  ends : ∀ {ts us t rest}, lists ts us → lists (t :: rest) rest → t.kind = .semicolon →
    Heads (· ∈ stoppers) rest → rest.length + 1 < ts.length → rest.length < us.length →
    ∀ u ∈ rest.head?, u.kind = .rbrace ∨ (lastBefore us rest).any (·.kind = .rbrace)
  nil : nodes [] []
  append : ∀ {ns ms ns' ms'}, nodes ns ms → nodes ns' ms' → nodes (ns ++ ns') (ms ++ ms')
  inField : ∀ field {n m}, nodes [n] [m] → nodes [n.inField field] [m.inField field]
  branch : ∀ {kind n m ns ms}, kind.isWord = false → nodes (n :: ns) (m :: ms) →
    nodes [.branch kind n ns] [.branch kind m ms]
  mark : ∀ {t u}, token t u → nodes [.anonymous t] [.anonymous u]
  spared : ¬ strict → ∀ {t : Token}, t.kind = .semicolon → nodes [.anonymous t] []
  name : ∀ {t u}, token t u → nodes [.leaf .identifier t.span] [.leaf .identifier u.span]
  number : ∀ {t u}, token t u → nodes [numberNode t.span] [numberNode u.span]
  negative : ∀ {s v t u}, token s v → token t u → touches s t → touches v u →
    nodes [numberNode { s.span with stop := t.span.stop }]
      [numberNode { v.span with stop := u.span.stop }]
  string : ∀ {t u}, token t u → t.kind = .string → nodes [stringNode t] [stringNode u]

-- ================================================================= outcomes

/-- Whether two runs end alike: in values that correspond, or in a fault. If the
runs are strict the fault is the same. -/
inductive EndsAlike (strict : Prop) (R : α → β → Prop) :
    Except ParseError α → Except ParseError β → Prop
  | ok {x : α} {y : β} (h : R x y) : EndsAlike strict R (.ok x) (.ok y)
  | error {e : ParseError} {y : Except ParseError β}
      (h : strict → ∃ f, y = .error f ∧ f.fault = e.fault) : EndsAlike strict R (.error e) y

namespace EndsAlike

variable {strict : Prop} {R : α → β → Prop} {S : γ → δ → Prop}

theorem loose (h : ¬ strict) {x : Except ParseError α} {y : Except ParseError β} {e : ParseError}
    (hx : x = .error e) : EndsAlike strict R x y := by
  rw [hx]
  exact .error fun hs => absurd hs h

theorem bind {x : Except ParseError α} {y : Except ParseError β} {f : α → Except ParseError γ}
    {g : β → Except ParseError δ} (hx : EndsAlike strict R x y)
    (hf : ∀ v w, R v w → EndsAlike strict S (f v) (g w)) :
    EndsAlike strict S (x >>= f) (y >>= g) := by
  cases hx with
  | ok h => exact hf _ _ h
  | error h =>
    refine .error fun hs => ?_
    obtain ⟨fault, rfl, hfault⟩ := h hs
    exact ⟨fault, rfl, hfault⟩

end EndsAlike

/-- Whether two readers end alike and leave tokens that correspond. -/
def ReadsAlike (strict : Prop) (lists : List Token → List Token → Prop) (R : α → β → Prop) :
    Except ParseError (Taken m α) → Except ParseError (Taken n β) → Prop :=
  EndsAlike strict fun x y => R x.value y.value ∧ lists x.rest y.rest

namespace ReadsAlike

variable {strict : Prop} {lists : List Token → List Token → Prop} {R : α → β → Prop}
  {S : γ → δ → Prop} {ts us : List Token}

theorem ok {x : α} {y : β} {h : ts.length < m} {h' : us.length < n} (hvalue : R x y)
    (hrest : lists ts us) : ReadsAlike strict lists R (.ok ⟨x, ts, h⟩) (.ok ⟨y, us, h'⟩) :=
  EndsAlike.ok ⟨hvalue, hrest⟩

theorem bind {x : Except ParseError (Taken m α)} {y : Except ParseError (Taken n β)}
    {f : Taken m α → Except ParseError (Taken k γ)}
    {g : Taken n β → Except ParseError (Taken l δ)} (hx : ReadsAlike strict lists R x y)
    (hf : ∀ v rest h w rest' h', R v w → lists rest rest' →
      ReadsAlike strict lists S (f ⟨v, rest, h⟩) (g ⟨w, rest', h'⟩)) :
    ReadsAlike strict lists S (x >>= f) (y >>= g) :=
  EndsAlike.bind hx fun v w h => hf v.value v.rest v.shorter w.value w.rest w.shorter h.1 h.2

end ReadsAlike

-- =============================================================== semicolons

section

variable {stop : Span} {t : Token} {rest : List Token}

theorem primary_semicolon (hk : t.kind = .semicolon) :
    primary stop (t :: rest) = .error (missing stop .expression (t :: rest)) := by
  rw [primary.eq_def]
  dsimp only
  rw [hk]

theorem expression_semicolon (hk : t.kind = .semicolon) :
    expression stop (t :: rest) = .error (missing stop .expression (t :: rest)) := by
  rw [expression, binary, postfixExpr, primary_semicolon hk]
  rfl

theorem items_semicolon {field : Option Field} {close : TokenKind} {expected : Expected}
    (hk : t.kind = .semicolon) : items stop field close expected (t :: rest) =
      .error (missing stop .expression (t :: rest)) := by
  rw [items, expression_semicolon hk]
  rfl

theorem plainStatement_semicolon (hk : t.kind = .semicolon) :
    plainStatement stop (t :: rest) = .error (missing stop .expression (t :: rest)) := by
  have hplain : plainStatement stop (t :: rest) = expressionStatement stop (t :: rest) := by
    cases rest with
    | nil => exact plainStatement_eq nofun
    | cons u rest => rw [plainStatement, if_neg fun h => by rw [hk] at h; cases h.1]
  rw [hplain, expressionStatement, expression_semicolon hk]
  rfl

theorem statement_semicolon (hk : t.kind = .semicolon) :
    statement stop (t :: rest) = .error (missing stop .expression (t :: rest)) := by
  rw [statement.eq_def]
  dsimp only
  rw [hk]
  exact plainStatement_semicolon hk

theorem block_semicolon (hk : t.kind = .semicolon) :
    block stop (t :: rest) = .error (missing stop .openBrace (t :: rest)) := by
  have hexpect : expect stop .lbrace .openBrace (t :: rest) =
      .error (missing stop .openBrace (t :: rest)) := if_neg (by rw [hk]; decide)
  rw [block, hexpect]
  rfl

theorem stopped_of_stoppers (h : Heads (· ∈ stoppers) rest) : Stopped 0 rest := by
  have hstoppers : ∀ k ∈ stoppers, k ≠ .lparen ∧ k ≠ .dot ∧ k ≠ .else_ ∧ precedence? k = none := by
    decide
  refine h.mono fun k hk => ?_
  obtain ⟨hparen, hdot, helse, hnone⟩ := hstoppers k hk
  exact ⟨hparen, hdot, helse, fun p hp => by rw [hnone] at hp; cases hp⟩

/-- A return without a value. -/
theorem statement_return (hk : t.kind = .return_)
    (h : Heads (fun k => k = .semicolon ∨ k = .rbrace) rest) :
    statement stop (t :: rest) = (do
      let ⟨semicolon, rest₂, h₂⟩ ← finish stop (t :: rest) rest (Nat.lt_succ_self _)
      return ⟨.branch .returnStatement (.anonymous t) semicolon, rest₂, h₂⟩) := by
  rw [statement.eq_def]
  dsimp only
  rw [hk]
  cases rest with
  | nil => rfl
  | cons u rest =>
    dsimp only
    rw [if_pos (h u rfl)]

end

namespace Lockstep

variable {strict : Prop} {token : Token → Token → Prop}
  {lists : List Token → List Token → Prop} {nodes : List Node → List Node → Prop}
  {stop stop' : Span} {ts us : List Token}

section

variable (h : Lockstep strict token lists nodes)

include h

-- =================================================================== nodes

section

variable {ns ms : List Node} {n m : Node}

theorem cons (hn : nodes [n] [m]) (hns : nodes ns ms) : nodes (n :: ns) (m :: ms) :=
  h.append hn hns

theorem inOptional (field : Option Field) (hn : nodes [n] [m]) :
    nodes [n.inOptional field] [m.inOptional field] := by
  cases field with
  | none => exact hn
  | some field => exact h.inField field hn

end

-- ================================================================ single tokens

theorem missing_fault (expected : Expected) (hs : strict) (hts : lists ts us) :
    (missing stop' expected us).fault = (missing stop expected ts).fault := by
  cases h.view hts with
  | nil => rfl
  | cons ht => rw [missing, missing, h.lexeme hs ht]
  | spared hloose => exact absurd hs hloose

theorem fails {R : α → β → Prop} (expected : Expected) (hts : lists ts us) :
    EndsAlike strict R (.error (missing stop expected ts)) (.error (missing stop' expected us)) :=
  .error fun hs => ⟨_, rfl, h.missing_fault expected hs hts⟩

theorem reads_expect {kind : TokenKind} (expected : Expected) (hkind : kind ≠ .semicolon)
    (hts : lists ts us) :
    ReadsAlike strict lists (fun t u => token t u ∧ t.kind = kind) (expect stop kind expected ts)
      (expect stop' kind expected us) := by
  cases h.view hts with
  | nil => exact h.fails expected hts
  | cons ht hrest =>
    unfold expect
    dsimp only
    rw [h.kind ht]
    split
    · exact .ok ⟨ht, ‹_›⟩ hrest
    · exact h.fails expected hts
  | spared hloose hk =>
    exact .loose hloose (if_neg (hk ▸ hkind.symm))

theorem reads_finish {rest rest' : List Token} (hlt : rest.length < ts.length)
    (hlt' : rest'.length < us.length) (hts : lists ts us) (hrest : lists rest rest') :
    ReadsAlike strict lists nodes (finish stop ts rest hlt) (finish stop' us rest' hlt') := by
  cases h.view hrest with
  | nil => exact .ok h.nil hrest
  | @cons t u after after' ht hafter =>
    have hbrace := h.brace hts hrest hlt hlt'
    unfold finish
    dsimp only
    rw [h.kind ht]
    split
    · exact .ok (h.mark ht) hafter
    · by_cases hend : t.kind = .rbrace ∨ (lastBefore ts (t :: after)).any (·.kind = .rbrace)
      · rw [if_pos hend, if_pos (hend.imp_right hbrace)]
        exact .ok h.nil hrest
      · rw [if_neg hend]
        refine .error fun hs => ?_
        rw [if_neg fun hend' => hend (hend'.imp_right (h.brace_iff hs hts hrest).1)]
        exact ⟨_, rfl, h.missing_fault _ hs hrest⟩
  | @spared t after hloose hk hstops hafter =>
    have hend := h.ends hts hrest hk hstops hlt hlt'
    have hwithout : finish stop' us rest' hlt' = .ok ⟨[], rest', hlt'⟩ := by
      cases rest' with
      | nil => rfl
      | cons u rest =>
        have hsemicolon : u.kind ≠ .semicolon := by
          intro he
          exact absurd (he ▸ hstops u rfl) (by decide)
        rw [finish, if_neg hsemicolon, if_pos (hend u rfl)]
    rw [finish_semicolon hk, hwithout]
    exact .ok (h.spared hloose hk) hafter

-- ================================================================ lookahead

/-- Whether what a lookahead found is found in both runs. -/
def Sees (lists : List Token → List Token → Prop) (nodes : List Node → List Node → Prop) :
    Option (List Node × List Token) → Option (List Node × List Token) → Prop :=
  Option.Rel fun x y => nodes x.1 y.1 ∧ lists x.2 y.2

theorem sees_lambdaTail (ts us : List Token) (hts : lists ts us) :
    Sees lists nodes (lambdaTail? ts) (lambdaTail? us) := by
  cases h.view hts with
  | nil => exact .none
  | @cons t u ts us ht hrest _ hend =>
    have hkind := h.kind ht
    cases h.view hrest with
    | nil => exact .none
    | @cons a b ts us ha hafter =>
      rw [lambdaTail?, lambdaTail?, hkind, h.kind ha]
      split
      · have hmore := sees_lambdaTail ts us hafter
        generalize lambdaTail? ts = x, lambdaTail? us = y at hmore
        cases hmore with
        | none => exact .none
        | some hmore =>
          exact .some ⟨h.cons (h.mark ht) (h.cons (h.inField _ (h.name ha)) hmore.1), hmore.2⟩
      · split
        · exact .some ⟨h.cons (h.mark ht) (h.mark ha), hafter⟩
        · exact .none
    | @spared a us hloose hk hstops =>
      have hnone : lambdaTail? (t :: a :: us) = none := by
        rw [lambdaTail?, if_neg (by rw [hk]; exact fun he => absurd he.2 (by decide)),
          if_neg (by rw [hk]; exact fun he => absurd he.2 (by decide))]
      have hnone' : lambdaTail? (u :: us) = none := by
        cases us with
        | nil => rfl
        | cons b us =>
          have harrow : b.kind ≠ .doubleArrow := by
            intro he
            exact absurd (he ▸ hstops b rfl) (by decide)
          rw [lambdaTail?, if_neg ?_, if_neg fun he => harrow he.2]
          rintro ⟨hcomma, hname⟩
          have hbrace := hend (by rw [← hkind, hcomma]; decide) a hk rfl hstops b rfl
          rw [hname] at hbrace
          cases hbrace
      rw [hnone, hnone']
      exact .none
  | @spared t us hloose hk hstops =>
    have hneither : ∀ k ∈ stoppers, k ≠ .comma ∧ k ≠ .rparen := by decide
    rw [lambdaTail?_eq_none (.cons (by rw [hk]; decide)),
      lambdaTail?_eq_none (hstops.mono hneither)]
    exact .none
termination_by ts.length

/-- Where no name can follow a missing semicolon. -/
theorem sees_lambdaHead (hts : lists ts us) (hend : AtEnd ts us) :
    Sees lists nodes (lambdaHead? ts) (lambdaHead? us) := by
  have hwhole := h.sees_lambdaTail ts us hts
  cases h.view hts with
  | nil => exact .none
  | @cons t u ts us ht hrest =>
    have hmore := h.sees_lambdaTail ts us hrest
    unfold lambdaHead?
    dsimp only
    rw [h.kind ht]
    split
    · generalize lambdaTail? ts = x, lambdaTail? us = y at hmore
      cases hmore with
      | none => exact .none
      | some hmore => exact .some ⟨h.cons (h.inField _ (h.name ht)) hmore.1, hmore.2⟩
    · split
      · exact hwhole
      · exact .none
  | @spared t us hloose hk hstops =>
    have hbrace := hend t hk rfl hstops
    have hnone : lambdaHead? us = none := by
      cases us with
      | nil => rfl
      | cons u us =>
        have hu : u.kind = .rbrace := hbrace u rfl
        rw [lambdaHead?, if_neg (by rw [hu]; decide), if_neg (by rw [hu]; decide)]
    rw [hnone, lambdaHead?, if_neg (by rw [hk]; decide), if_neg (by rw [hk]; decide)]
    exact .none

end

end Lockstep

end SamScript.Parser
