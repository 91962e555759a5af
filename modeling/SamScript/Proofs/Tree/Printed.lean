/-
Tokens in print and what is built from them. `Printed` says that tokens of a
text are what some lexemes say, and splits where the lexemes split; `Draws`
says what sketches nodes have, and is built up as nodes are. The tokens of an
expression begin in a way that tells it from all else that can stand in its
place (`Expression.opens`).
-/
import SamScript.Proofs.Tree.Abstract

namespace SamScript

open Utf8 Abstract

-- ========================================================= tokens in print

/-- A token of a text that is what a lexeme says. -/
structure Lexeme.Prints (a : List Char) (ℓ : Lexeme) (t : Token) : Prop where
  fits : ℓ.Fits t
  stands : t.Stands a

/-- Tokens of a text that are what lexemes say. -/
structure Printed (a : List Char) (ls : List Lexeme) (ts : List Token) : Prop where
  spell : Lexeme.Spell ls ts
  stands : ∀ t ∈ ts, t.Stands a

section

variable {a : List Char} {ℓ : Lexeme} {ls ms : List Lexeme} {t : Token} {ts : List Token}

theorem Lexeme.Prints.kind (h : ℓ.Prints a t) : t.kind = ℓ.kind :=
  h.fits.kind

theorem Lexeme.Prints.mark_kind {k : TokenKind} {hk : k.spelling?.isSome}
    (h : (Lexeme.mark k hk).Prints a t) : t.kind = k :=
  h.fits.kind

theorem Lexeme.Prints.lexeme (h : ℓ.Prints a t) : t.lexeme.toList = ℓ.text := by
  rw [h.fits.lexeme, String.toList_ofList]

namespace Printed

theorem nil (h : Printed a [] ts) : ts = [] := by
  cases h.spell
  rfl

theorem cons (h : Printed a (ℓ :: ls) ts) :
    ∃ t us, ts = t :: us ∧ ℓ.Prints a t ∧ Printed a ls us := by
  obtain ⟨hspell, hstands⟩ := h
  cases hspell with
  | @cons _ t _ us hfits _ hrest =>
    obtain ⟨ht, hus⟩ := List.forall_mem_cons.1 hstands
    exact ⟨t, us, rfl, ⟨hfits, ht⟩, hrest, hus⟩

theorem one (h : Printed a [ℓ] ts) : ∃ t, ts = [t] ∧ ℓ.Prints a t := by
  obtain ⟨t, us, rfl, ht, hus⟩ := h.cons
  exact ⟨t, by rw [hus.nil], ht⟩

theorem append (h : Printed a (ls ++ ms) ts) :
    ∃ us vs, ts = us ++ vs ∧ Printed a ls us ∧ Printed a ms vs := by
  induction ls generalizing ts with
  | nil => exact ⟨[], ts, rfl, ⟨.nil, nofun⟩, h⟩
  | cons ℓ ls ih =>
    obtain ⟨hspell, hstands⟩ := h
    cases hspell with
    | @cons _ t _ us hfits hsign hrest =>
      obtain ⟨ht, hus⟩ := List.forall_mem_cons.1 hstands
      obtain ⟨vs, ws, rfl, hvs, hws⟩ := ih ⟨hrest, hus⟩
      refine ⟨t :: vs, ws, rfl, ⟨.cons hfits (fun hℓ u hu => ?_) hvs.spell, ?_⟩, hws⟩
      · refine hsign hℓ u ?_
        rw [List.head?_append, Option.mem_def.1 hu]
        rfl
      · exact List.forall_mem_cons.2 ⟨ht, hvs.stands⟩

theorem snoc (h : Printed a (ls ++ [ℓ]) ts) :
    ∃ us t, ts = us ++ [t] ∧ Printed a ls us ∧ ℓ.Prints a t := by
  obtain ⟨us, vs, rfl, hus, hvs⟩ := h.append
  obtain ⟨t, rfl, ht⟩ := hvs.one
  exact ⟨us, t, rfl, hus, ht⟩

/-- A sign touches the token after it. -/
theorem touches (h : Printed a (.sign :: ℓ :: ls) ts) : ∃ t u us, ts = t :: u :: us ∧
    Lexeme.sign.Prints a t ∧ ℓ.Prints a u ∧ Parser.touches t u ∧ Printed a ls us := by
  obtain ⟨hspell, hstands⟩ := h
  cases hspell with
  | @cons _ t _ us hfits hsign hrest =>
    obtain ⟨ht, hus⟩ := List.forall_mem_cons.1 hstands
    obtain ⟨u, vs, rfl, hu, hvs⟩ := Printed.cons ⟨hrest, hus⟩
    exact ⟨t, u, vs, rfl, ⟨hfits, ht⟩, hu,
      decide_eq_true (congrArg Position.offset (hsign rfl u rfl)), hvs⟩

theorem kinds (h : Printed a ls ts) : ts.map Token.kind = ls.map Lexeme.kind := by
  obtain ⟨hspell, -⟩ := h
  induction hspell with
  | nil => rfl
  | cons hfits _ _ ih => rw [List.map_cons, List.map_cons, hfits.kind, ih]

end Printed

end

-- ================================================================ sketches

/-- Whether these are the sketches of nodes of a text. -/
def Draws (a : List Char) (ns : List Node) (ss : List Sketch) : Prop :=
  ns.map (Node.sketch (encode a)) = ss

section

variable {a : List Char} {n : Node} {s : Sketch} {ns ms : List Node} {ss us : List Sketch}

theorem draws_one : Draws a [n] [s] ↔ n.sketch (encode a) = s := by
  simp [Draws]

namespace Draws

theorem append (h : Draws a ns ss) (h' : Draws a ms us) : Draws a (ns ++ ms) (ss ++ us) := by
  unfold Draws at h h' ⊢
  rw [List.map_append, h, h']

theorem cons (h : Draws a [n] [s]) (h' : Draws a ns ss) : Draws a (n :: ns) (s :: ss) :=
  h.append h'

theorem inField (field : Field) (h : Draws a [n] [s]) :
    Draws a [n.inField field] [s.inField field] := by
  rw [draws_one] at h ⊢
  rw [Node.sketch_inField, h]

theorem branch {kind : NodeKind} (hk : kind.isWord = false) (h : Draws a (n :: ns) ss) :
    Draws a [.branch kind n ns] [.branch kind ss] := by
  rw [draws_one, Node.sketch_branch hk]
  exact congrArg _ h

theorem inOptional (field : Option Field) (h : Draws a [n] [s]) :
    Draws a [n.inOptional field] [s.inOptional field] := by
  cases field with
  | none => exact h
  | some field => exact h.inField field

theorem gathered (h : Draws a ns ss) : Draws a (gathered ns) (Sketch.gathered ss) := by
  cases ns with
  | nil =>
    cases h
    exact rfl
  | cons n ns =>
    cases h
    exact .branch rfl rfl

end Draws

namespace Lexeme.Prints

variable {ℓ : Lexeme} {t m : Token}

theorem mark (h : ℓ.Prints a t) : Draws a [.anonymous t] [.mark ℓ.text] := by
  rw [draws_one, h.stands.sketch_anonymous, h.lexeme]

theorem name {x : Name} (h : (Lexeme.name x).Prints a t) :
    Draws a [.leaf .identifier t.span] [.name x] := by
  rw [draws_one, h.stands.sketch_name, h.lexeme]
  rfl

theorem number {k : Number} (h : (Lexeme.number k).Prints a t) :
    Draws a [Parser.numberNode t.span] [.branch .literal [.word .number k.text]] := by
  rw [draws_one, h.stands.sketch_number, h.lexeme]
  rfl

theorem negative {k : Number} (hm : Lexeme.sign.Prints a m) (h : (Lexeme.number k).Prints a t)
    (htouch : Parser.touches m t) :
    Draws a [Parser.numberNode { m.span with stop := t.span.stop }]
      [.branch .literal [.word .number (['-'] ++ k.text)]] := by
  rw [draws_one, hm.stands.sketch_negative h.stands htouch, h.lexeme, hm.lexeme]
  rfl

theorem string {s : StringLiteral} (h : (Lexeme.string s).Prints a t) :
    Draws a [Parser.stringNode t] [.string s.quote s.pieces] := by
  obtain ⟨quote, hq⟩ := h.stands.literal h.kind
  have hquote : quote = s.quote := by
    have hlexeme := hq.lexeme_eq
    rw [h.lexeme] at hlexeme
    exact (List.cons.inj hlexeme).1.symm
  have hpieces : t.pieces = s.pieces := h.fits.pieces
  rw [draws_one, h.stands.sketch_string hq, hquote, hpieces]

end Lexeme.Prints

end

-- ================================================================ openings

namespace Parser

/-- Whether some tokens are at their end or begin with a kind of a class. -/
def Heads (p : TokenKind → Prop) (ts : List Token) : Prop :=
  ∀ t ∈ ts.head?, p t.kind

theorem Heads.nil {p : TokenKind → Prop} : Heads p [] :=
  nofun

theorem Heads.cons {p : TokenKind → Prop} {t : Token} {ts : List Token} (h : p t.kind) :
    Heads p (t :: ts) := by
  intro u hu
  cases hu
  exact h

theorem Heads.mono {p q : TokenKind → Prop} {ts : List Token} (h : Heads p ts)
    (hq : ∀ k, p k → q k) : Heads q ts :=
  fun t ht => hq _ (h t ht)

/-- The kinds that an expression can begin with. -/
def starters : List TokenKind :=
  [.number, .minus, .string, .identifier, .lbracket, .lparen, .if_]

/-- The kinds that can go on with an expression after a name. -/
def followers : List TokenKind :=
  [.lparen, .dot, .plus, .minus, .star, .slash, .percent, .lt, .gt, .le, .ge, .eq, .ne, .and, .or]

/-- The kinds that can come after a whole expression. -/
def closers : List TokenKind :=
  [.semicolon, .comma, .rparen, .rbracket]

/-- Whether kinds of tokens begin as those of an expression do. -/
def Opens : List TokenKind → Prop
  | [] => False
  | k :: ks => k ∈ starters ∧ (k = .identifier → ∀ j ∈ ks.head?, j ∈ followers)

theorem opens_cons {k : TokenKind} {ks : List TokenKind} : Opens (k :: ks) ↔
    k ∈ starters ∧ (k = .identifier → ∀ j ∈ ks.head?, j ∈ followers) :=
  Iff.rfl

theorem opens_start (k : TokenKind) {ks : List TokenKind} (h : k ∈ starters)
    (hname : k ≠ .identifier) : Opens (k :: ks) :=
  opens_cons.2 ⟨h, fun he => absurd he hname⟩

theorem Opens.append {ks js : List TokenKind} {j : TokenKind} (h : Opens ks)
    (hj : j ∈ followers) : Opens (ks ++ j :: js) := by
  cases ks with
  | nil => exact h.elim
  | cons k ks =>
    obtain ⟨hk, hnext⟩ := h
    refine opens_cons.2 ⟨hk, fun hname i hi => ?_⟩
    cases ks with
    | nil =>
      cases hi
      exact hj
    | cons => exact hnext hname i hi

end Parser

open SamScript.Parser

theorem Operator.token_mem_followers (op : Operator) : op.token ∈ followers := by
  cases op <;> decide

namespace Abstract

theorem opens_grouped {ls : List Lexeme} (h : Opens (ls.map Lexeme.kind)) (needed : Bool) :
    Opens ((grouped needed ls).map Lexeme.kind) := by
  cases needed with
  | false => exact h
  | true => exact opens_start .lparen (by decide) (by decide)

/-- What begins as an expression begins with a lexeme that can begin one. -/
theorem exists_cons_of_opens {ls : List Lexeme} (h : Opens (ls.map Lexeme.kind)) :
    ∃ ℓ ms, ls = ℓ :: ms ∧ ℓ.kind ∈ starters := by
  cases ls with
  | nil => exact h.elim
  | cons ℓ ms => exact ⟨ℓ, ms, rfl, h.1⟩

/-- A printed expression begins with a token that can begin one, and a name
at its front has nothing behind it that could belong to a lambda's head or to
an assignment. -/
theorem Expression.opens : (e : Expression) → Opens (e.lexemes.map Lexeme.kind)
  | .number false _ => opens_start .number (by decide) (by decide)
  | .number true _ => opens_start .minus (by decide) (by decide)
  | .string _ => opens_start .string (by decide) (by decide)
  | .name _ => opens_cons.2 ⟨(by decide : TokenKind.identifier ∈ starters), fun _ => nofun⟩
  | .array _ => opens_start .lbracket (by decide) (by decide)
  | .lambda _ _ => opens_start .lparen (by decide) (by decide)
  | .conditional (.mk _ _ _) => opens_start .if_ (by decide) (by decide)
  | .call callee _ => by
    rw [lexemes, List.map_append]
    exact (opens_grouped callee.opens _).append (by decide)
  | .access parent _ => by
    rw [lexemes, List.map_append]
    exact (opens_grouped parent.opens _).append (by decide)
  | .binary op left _ => by
    rw [lexemes, List.map_append]
    exact (opens_grouped left.opens _).append op.token_mem_followers

end Abstract

/-- The tokens of an expression begin with one that can begin it. -/
theorem Printed.heads {a : List Char} {e : Expression} {ts : List Token}
    (h : Printed a e.lexemes ts) : ∃ t us, ts = t :: us ∧ t.kind ∈ starters := by
  obtain ⟨ℓ, ls, hls, hstart⟩ := exists_cons_of_opens e.opens
  rw [hls] at h
  obtain ⟨t, us, rfl, ht, -⟩ := h.cons
  exact ⟨t, us, rfl, ht.kind ▸ hstart⟩

end SamScript
