/-
Parsing asks tokens for no place. Of each token it looks at the kind and the
lexeme, and of a `-` at whether it touches a number after it. So two token
lists that agree in these (`wording`) are parsed in lockstep
(`Alike.lockstep`): the parser stops at the same token for the same reason, or
it builds trees of one sketch (`Tree.ofSource_alike`).
-/
import SamScript.Proofs.Tree.Lockstep
import SamScript.Tree.OfSource
import SamScript.Proofs.Tree.Sketch

namespace SamScript.Parser

open Node

-- ================================================================= wording

/-- Tokens without their places: the kind of each, its lexeme, and whether it
is the sign of a number. -/
def wording : List Token → List (TokenKind × String × Bool)
  | [] => []
  | t :: rest => (t.kind, t.lexeme, isSign t rest) :: wording rest

/-- Whether two tokens, each one of a text, are the same but for their
places. -/
structure Resembles (a b : List Char) (t u : Token) : Prop where
  kind : u.kind = t.kind
  lexeme : u.lexeme = t.lexeme
  pieces : t.kind = .string → u.pieces = t.pieces
  here : t.Stands a
  there : u.Stands b

/-- Whether the tokens of two texts are the same but for their places. -/
inductive Alike (a b : List Char) : List Token → List Token → Prop
  | nil : Alike a b [] []
  | cons {t u : Token} {ts us : List Token} (h : Resembles a b t u)
      (hsign : isSign u us = isSign t ts) (hrest : Alike a b ts us) :
      Alike a b (t :: ts) (u :: us)

theorem Alike.of_wording {a b : List Char} {ts us : List Token} (h : wording us = wording ts)
    (hts : ∀ t ∈ ts, t.Stands a ∧ t.Split) (hus : ∀ u ∈ us, u.Stands b ∧ u.Split) :
    Alike a b ts us := by
  induction ts generalizing us with
  | nil =>
    cases us with
    | nil => exact .nil
    | cons u us => cases h
  | cons t ts ih =>
    cases us with
    | nil => cases h
    | cons u us =>
      rw [List.forall_mem_cons] at hts hus
      obtain ⟨hhead, htail⟩ := List.cons.inj h
      obtain ⟨hkind, hlexeme, hsign⟩ : u.kind = t.kind ∧ u.lexeme = t.lexeme ∧
        isSign u us = isSign t ts := by simpa using hhead
      refine .cons ⟨hkind, hlexeme, fun hk => ?_, hts.1.1, hus.1.1⟩ hsign (ih htail hts.2 hus.2)
      exact hts.1.2.pieces_eq hus.1.2 hk hkind hlexeme

theorem Alike.length {a b : List Char} {ts us : List Token} (h : Alike a b ts us) :
    us.length = ts.length := by
  induction h with
  | nil => rfl
  | cons _ _ _ ih => rw [List.length_cons, List.length_cons, ih]

-- ================================================================== nodes

/-- Whether nodes of two texts are the same but for their places. -/
def Drawn (a b : List Char) (ns ms : List Node) : Prop :=
  ns.map (sketch (Utf8.encode a)) = ms.map (sketch (Utf8.encode b))

section

variable {a b : List Char} {ns ms ns' ms' : List Node} {n m : Node} {t u : Token}

theorem drawn_one : Drawn a b [n] [m] ↔
    n.sketch (Utf8.encode a) = m.sketch (Utf8.encode b) := by
  simp [Drawn]

theorem Drawn.nil : Drawn a b [] [] := rfl

theorem Drawn.append (h : Drawn a b ns ms) (h' : Drawn a b ns' ms') :
    Drawn a b (ns ++ ns') (ms ++ ms') := by
  unfold Drawn at h h' ⊢
  rw [List.map_append, List.map_append, h, h']

theorem Drawn.inField (field : Field) (h : Drawn a b [n] [m]) :
    Drawn a b [n.inField field] [m.inField field] := by
  rw [drawn_one] at h ⊢
  rw [sketch_inField, sketch_inField, h]

/-- Of a node that is no word only the children show. -/
theorem Drawn.wrap {kind : NodeKind} (extent extent' : Extent) (hk : kind.isWord = false)
    (h : Drawn a b ns ms) :
    Drawn a b [.mk kind true none extent ns] [.mk kind true none extent' ms] := by
  have hspelling (source : List UInt8) (e : Extent) (ns : List Node) :
      (Node.mk kind true none e ns).spelling source = [] := by
    show (if (true && !kind.isWord) = true then [] else _) = []
    rw [hk]
    rfl
  rw [drawn_one, sketch_eq, sketch_eq, hspelling, hspelling]
  exact congrArg (Sketch.mk kind true none []) h

namespace Resembles

theorem mark (h : Resembles a b t u) : Drawn a b [.anonymous t] [.anonymous u] := by
  rw [drawn_one, h.here.sketch_anonymous, h.there.sketch_anonymous, h.lexeme]

theorem name (h : Resembles a b t u) :
    Drawn a b [.leaf .identifier t.span] [.leaf .identifier u.span] := by
  rw [drawn_one, h.here.sketch_name, h.there.sketch_name, h.lexeme]

theorem number (h : Resembles a b t u) :
    Drawn a b [numberNode t.span] [numberNode u.span] := by
  rw [drawn_one, h.here.sketch_number, h.there.sketch_number, h.lexeme]

theorem negative {s v : Token} (hs : Resembles a b s v) (h : Resembles a b t u)
    (htouch : touches s t) (htouch' : touches v u) :
    Drawn a b [numberNode { s.span with stop := t.span.stop }]
      [numberNode { v.span with stop := u.span.stop }] := by
  rw [drawn_one, hs.here.sketch_negative h.here htouch, hs.there.sketch_negative h.there htouch',
    h.lexeme, hs.lexeme]

theorem string (h : Resembles a b t u) (hk : t.kind = .string) :
    Drawn a b [stringNode t] [stringNode u] := by
  obtain ⟨quote, hq⟩ := h.here.literal hk
  obtain ⟨quote', hq'⟩ := h.there.literal (h.kind.trans hk)
  have hquote : quote = quote' := by
    have := hq'.lexeme_eq
    rw [h.lexeme, hq.lexeme_eq] at this
    exact (List.cons.inj this).1
  rw [drawn_one, h.here.sketch_string hq, h.there.sketch_string hq', h.pieces hk, hquote]

end Resembles

end

-- =============================================================== lockstep

section

variable {a b : List Char} {ts us rest rest' : List Token}

theorem Alike.view (h : Alike a b ts us) : Sides True (Resembles a b) (Alike a b) ts us := by
  cases h with
  | nil => exact .nil
  | @cons t u ts us ht hsign hrest =>
    refine .cons ht hrest hsign fun _ s _ he _ => ?_
    have hlength := hrest.length
    rw [he, List.length_cons] at hlength
    omega

theorem lastBefore_alike (h : Alike a b ts us) (hrest : Alike a b rest rest') :
    (lastBefore us rest').any (·.kind = .rbrace) =
      (lastBefore ts rest).any (·.kind = .rbrace) := by
  have hmap : us.map Token.kind = ts.map Token.kind := by
    induction h with
    | nil => rfl
    | cons h _ _ ih => rw [List.map_cons, List.map_cons, h.kind, ih]
  have hlast : (lastBefore us rest').map Token.kind = (lastBefore ts rest).map Token.kind := by
    unfold lastBefore
    rw [← List.getLast?_map, ← List.getLast?_map, List.map_take, List.map_take, hmap, h.length,
      hrest.length]
  have hany (o : Option Token) : o.any (·.kind = .rbrace) =
      (o.map Token.kind).any (· = .rbrace) := by
    cases o <;> rfl
  rw [hany, hany, hlast]

/-- Two texts that differ in places alone are parsed in lockstep. -/
theorem Alike.lockstep (a b : List Char) :
    Lockstep True (Resembles a b) (Alike a b) (Drawn a b) where
  view := Alike.view
  kind h := h.kind
  lexeme _ _ _ h := h.lexeme
  brace h hrest _ _ hbrace := by rwa [lastBefore_alike h hrest]
  brace_iff _ _ _ _ _ h hrest := by rw [lastBefore_alike h hrest]
  ends _ hrest := by
    have hlength := hrest.length
    rw [List.length_cons] at hlength
    omega
  nil := rfl
  append := Drawn.append
  inField field _ _ := Drawn.inField field
  branch := Drawn.wrap _ _
  mark h := h.mark
  spared h := absurd trivial h
  name h := h.name
  number h := h.number
  negative hs h := hs.negative h
  string h hk := h.string hk

end

end SamScript.Parser

namespace SamScript

open SamScript.Parser

/-- Two texts whose tokens are the same but for their places both fail to
parse, for the same fault, or have trees of one sketch. -/
theorem Tree.ofSource_alike (bounds : Bounds) {file file' : Option String}
    {source source' : String} {list list' : TokenList} (h : tokenize file source = .ok list)
    (h' : tokenize file' source' = .ok list')
    (hwording : wording list'.tokens = wording list.tokens) :
    (∃ e e', Tree.ofSource bounds file source = .error (.parse e) ∧
      Tree.ofSource bounds file' source' = .error (.parse e') ∧ e'.fault = e.fault) ∨
    ∃ tree tree', Tree.ofSource bounds file source = .ok tree ∧
      Tree.ofSource bounds file' source' = .ok tree' ∧
      tree.root.sketch tree.source = tree'.root.sketch tree'.source := by
  have hlists : Alike source.toList source'.toList list.tokens list'.tokens := by
    refine .of_wording hwording (fun t ht => ⟨?_, tokenize_split h t ht⟩)
      fun u hu => ⟨?_, tokenize_split h' u hu⟩
    · exact (tokenize_places h).2.1 t ht
    · exact (tokenize_places h').2.1 u hu
  have hends := (Alike.lockstep _ _).reads_programWithin (Drawn.wrap _ _ rfl) bounds.brackets hlists
  unfold Tree.ofSource
  rw [h, h']
  dsimp only
  generalize programWithin bounds.brackets list = x,
    programWithin bounds.brackets list' = y at hends
  cases hends with
  | error he =>
    obtain ⟨fault, rfl, hfault⟩ := he trivial
    exact .inl ⟨_, fault, rfl, rfl, hfault⟩
  | ok hroot => exact .inr ⟨_, _, rfl, rfl, drawn_one.1 hroot⟩

end SamScript
