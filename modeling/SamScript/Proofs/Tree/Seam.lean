/-
A program with one semicolon less. The semicolon is a `Seam` of the tokens: it
may be missing by the rule for ends of statements, and what follows it goes on
with no expression. Then the parse without it runs in lockstep with the parse
that has it (`Seam.lockstep`), and the two trees agree in all that is named
(`Akin`).
-/
import SamScript.Proofs.Tree.Lockstep
import SamScript.Proofs.Tree.Sketch

namespace SamScript

-- ================================================================== nodes

/-- What shows of a node where only the named structure does. -/
def Node.shape (n : Node) : Bool × Option Field × String :=
  (n.isNamed, n.field, n.sexp)

/-- Whether nodes are the same but for places and for what has no name. -/
def Akin (ns ms : List Node) : Prop :=
  (ns.map Node.shape).filter Prod.fst = (ms.map Node.shape).filter Prod.fst

namespace Akin

open Node

variable {ns ms ns' ms' : List Node} {n m : Node}

theorem append (h : Akin ns ms) (h' : Akin ns' ms') : Akin (ns ++ ns') (ms ++ ms') := by
  unfold Akin at h h' ⊢
  rw [List.map_append, List.map_append, List.filter_append, List.filter_append, h, h']

theorem sexps_eq (h : Akin ns ms) : sexps ns = sexps ms := by
  rw [Node.sexps_eq, Node.sexps_eq]
  exact congrArg (List.map fun p => labelled p.2.1 p.2.2) h

theorem wrap (kind : NodeKind) (extent extent' : Extent) (h : Akin ns ms) :
    Akin [.mk kind true none extent ns] [.mk kind true none extent' ms] := by
  have hshape : (Node.mk kind true none extent ns).shape =
      (Node.mk kind true none extent' ms).shape := by
    rw [shape, shape, sexp, sexp, h.sexps_eq]
    rfl
  rw [Akin, List.map_singleton, List.map_singleton, hshape]

/-- Two nodes alone are akin if neither has a name, or if they show the same. -/
theorem akin_one : Akin [n] [m] ↔ n.isNamed = m.isNamed ∧
    (n.isNamed = true → n.field = m.field ∧ n.sexp = m.sexp) := by
  rw [Akin, List.map_singleton, List.map_singleton, shape, shape]
  generalize n.isNamed = named, m.isNamed = named', n.field = field, m.field = field',
    n.sexp = text, m.sexp = text'
  cases named <;> cases named' <;> simp

theorem inField (field : Field) (h : Akin [n] [m]) :
    Akin [n.inField field] [m.inField field] := by
  have hsame (n : Node) : (n.inField field).isNamed = n.isNamed ∧
      (n.inField field).field = some field ∧ (n.inField field).sexp = n.sexp := by
    cases n
    exact ⟨rfl, rfl, rfl⟩
  obtain ⟨hnamed, hshows⟩ := akin_one.1 h
  obtain ⟨hn, hfield, htext⟩ := hsame n
  obtain ⟨hn', hfield', htext'⟩ := hsame m
  refine akin_one.2 ⟨by rw [hn, hn', hnamed], fun hname => ?_⟩
  rw [hfield, hfield', htext, htext']
  exact ⟨rfl, (hshows (hn ▸ hname)).2⟩

/-- A mark has no name. -/
theorem mark (t : Token) : Akin [.anonymous t] [] :=
  rfl

theorem refl (ns : List Node) : Akin ns ns :=
  rfl

end Akin

namespace Parser

-- =================================================================== seams

/-- A semicolon of some tokens that may be missing, before what goes on with no
expression. -/
structure Seam where
  before : List Token
  semicolon : Token
  after : List Token
  isSemicolon : semicolon.kind = .semicolon
  mayEnd : Heads (· = .rbrace) after ∨ before.getLast?.any (·.kind = .rbrace)
  stops : Heads (· ∈ stoppers) after

namespace Seam

/-- Tokens from the same place on, with the semicolon and without. -/
inductive Cut (s : Seam) : List Token → List Token → Prop
  | before {ts : List Token} : ts <:+ s.before → s.Cut (ts ++ s.semicolon :: s.after) (ts ++ s.after)
  | after {ts : List Token} : ts <:+ s.after → s.Cut ts ts

theorem lastBefore_append (ts rest : List Token) : lastBefore (ts ++ rest) rest = ts.getLast? := by
  rw [lastBefore, List.length_append, Nat.add_sub_cancel, List.take_left]

theorem getLast?_of_suffix {ts us : List Token} (h : ts <:+ us) (hne : ts ≠ []) :
    us.getLast? = ts.getLast? := by
  obtain ⟨front, rfl⟩ := h
  exact List.getLast?_append_of_ne_nil front hne

variable {s : Seam} {ts us rest rest' : List Token}

namespace Cut

theorem view (h : s.Cut ts us) : Sides False Eq s.Cut ts us := by
  cases h with
  | after h =>
    cases ts with
    | nil => exact .nil
    | cons t ts =>
      refine .cons rfl (.after ((List.suffix_cons t ts).trans h)) rfl fun _ x _ he => ?_
      exact absurd (congrArg List.length he) (Nat.ne_of_lt (Nat.lt_succ_self _))
  | @before ts h =>
    cases ts with
    | nil => exact .spared not_false s.isSemicolon s.stops (.after (List.suffix_refl _))
    | cons t ts =>
      have hend : t.kind ≠ .rbrace → AtEnd (ts ++ s.semicolon :: s.after) (ts ++ s.after) := by
        intro hbrace x hx he hstops
        cases ts with
        | nil =>
          refine s.mayEnd.resolve_right fun hlast => hbrace ?_
          rw [getLast?_of_suffix h (List.cons_ne_nil _ _)] at hlast
          simpa using hlast
        | cons c ts =>
          -- what follows a semicolon that is left out is no semicolon
          have hc : c.kind = .semicolon := (List.cons.inj he).1 ▸ hx
          exact absurd (hc ▸ hstops c rfl) (by decide)
      refine .cons rfl (.before ((List.suffix_cons t ts).trans h)) ?_ hend
      cases ts with
      | nil =>
        by_cases hminus : t.kind = .minus
        · have hbrace := hend (by rw [hminus]; decide) s.semicolon s.isSemicolon rfl s.stops
          have hnumber : s.after.head?.any (fun n => n.kind = .number && touches t n) = false := by
            cases hafter : s.after with
            | nil => rfl
            | cons v after => simp [hbrace v (by rw [hafter]; rfl)]
          have hsemicolon : isSign t (s.semicolon :: s.after) = false := by
            simp [isSign, s.isSemicolon]
          show isSign t s.after = isSign t (s.semicolon :: s.after)
          rw [hsemicolon, isSign, hnumber, Bool.and_false]
        · simp [isSign, hminus]
      | cons => rfl

/-- The token before a rest is the same with the semicolon and without, or it is
the semicolon. -/
theorem lastBefore (h : s.Cut ts us) (hrest : s.Cut rest rest') (hlt : rest.length < ts.length) :
    lastBefore us rest' = lastBefore ts rest ∨ lastBefore ts rest = some s.semicolon := by
  cases h with
  | after h =>
    cases hrest with
    | after => exact .inl rfl
    | before =>
      have hle := h.length_le
      rw [List.length_append, List.length_cons] at hlt
      omega
  | @before ts h =>
    cases hrest with
    | @after rest hrest =>
      obtain ⟨m, hm⟩ := hrest
      have hwith : ts ++ s.semicolon :: s.after = ts ++ s.semicolon :: m ++ rest := by
        rw [← hm, List.append_assoc, List.cons_append]
      have hwithout : ts ++ s.after = ts ++ m ++ rest := by
        rw [← hm, List.append_assoc]
      rw [hwith, hwithout, lastBefore_append, lastBefore_append]
      cases m with
      | nil => exact .inr (List.getLast?_append_of_ne_nil ts (List.cons_ne_nil _ _))
      | cons t m =>
        rw [List.getLast?_append_of_ne_nil ts (List.cons_ne_nil _ _),
          List.getLast?_append_of_ne_nil ts (List.cons_ne_nil _ _), List.getLast?_cons_cons]
        exact .inl rfl
    | @before rest hrest =>
      have hle : rest.length ≤ ts.length := by
        rw [List.length_append, List.length_append] at hlt
        omega
      obtain ⟨m, rfl⟩ := List.suffix_of_suffix_length_le hrest h hle
      rw [List.append_assoc, List.append_assoc, lastBefore_append, lastBefore_append]
      exact .inl rfl

/-- Only the semicolon of the seam is left out. -/
theorem eq_after {t : Token} (h : s.Cut (t :: rest) rest) (hk : t.kind = .semicolon)
    (hstops : Heads (· ∈ stoppers) rest) : rest = s.after := by
  generalize hts : t :: rest = ts at h
  cases h with
  | after => exact absurd (congrArg List.length hts) (Nat.succ_ne_self _)
  | @before ts =>
    cases ts with
    | nil => rfl
    | cons c ts =>
      have hc : c.kind = .semicolon := (List.cons.inj hts).1 ▸ hk
      exact absurd (hc ▸ hstops c rfl) (by decide)

theorem ends (h : s.Cut ts us) (hlt : s.after.length < us.length) :
    ∀ u ∈ s.after.head?, u.kind = .rbrace ∨
      (Parser.lastBefore us s.after).any (·.kind = .rbrace) := by
  cases h with
  | after h => exact absurd h.length_le (Nat.not_le.2 hlt)
  | @before ts h =>
    have hne : ts ≠ [] := by
      rintro rfl
      exact Nat.lt_irrefl _ hlt
    intro u hu
    refine s.mayEnd.imp (fun hbrace => hbrace u hu) fun hlast => ?_
    rwa [lastBefore_append, ← getLast?_of_suffix h hne]

end Cut

/-- The parse without the semicolon runs in lockstep with the one that has
it. -/
theorem lockstep (s : Seam) : Lockstep False Eq s.Cut Akin where
  view := Cut.view
  kind h := h ▸ rfl
  lexeme h := h.elim
  brace h hrest hlt _ hbrace := by
    rcases h.lastBefore hrest hlt with he | he
    · rwa [he]
    · rw [he] at hbrace
      simp [s.isSemicolon] at hbrace
  brace_iff h := h.elim
  ends h hrest hk hstops _ hlt := by
    obtain rfl := hrest.eq_after hk hstops
    exact h.ends hlt
  nil := rfl
  append := Akin.append
  inField field _ _ := Akin.inField field
  branch _ := Akin.wrap _ _ _
  mark h := h ▸ .refl _
  spared _ _ _ := .mark _
  name h := h ▸ .refl _
  number h := h ▸ .refl _
  negative hs h _ _ := hs ▸ h ▸ .refl _
  string h _ := h ▸ .refl _

end Seam

end Parser

end SamScript
