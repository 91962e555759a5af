/-
Trees further on. Tokens that stand later in a text, moved by whole rows, are parsed
in lockstep with the same tokens at its start, and every node they give is moved as
they are (`Shift.lockstep`).
-/
import SamScript.Proofs.Token.Behind
import SamScript.Proofs.Token.Coordinates
import SamScript.Proofs.Tree.Lockstep

namespace SamScript

open SamScript.Parser

variable (d : Shift)

-- =================================================================== moving

def Point.shift (p : Point) : Point :=
  ⟨p.row + d.rows, p.column⟩

def Extent.shift (x : Extent) : Extent :=
  ⟨x.startByte + d.bytes, x.endByte + d.bytes, x.startPoint.shift d, x.endPoint.shift d⟩

namespace Node

mutual

/-- A node and everything below it, further on. -/
def shift : Node → Node
  | .mk kind isNamed field extent children =>
    .mk kind isNamed field (extent.shift d) (shifts children)

def shifts : List Node → List Node
  | [] => []
  | n :: rest => shift n :: shifts rest

end

theorem shifts_eq (ns : List Node) : shifts d ns = ns.map (shift d) := by
  induction ns with
  | nil => rfl
  | cons n rest ih => rw [shifts, List.map_cons, ih]

variable {d} {n : Node}

@[simp] theorem kind_shift : (n.shift d).kind = n.kind := by
  cases n
  rfl

@[simp] theorem isNamed_shift : (n.shift d).isNamed = n.isNamed := by
  cases n
  rfl

@[simp] theorem extent_shift : (n.shift d).extent = n.extent.shift d := by
  cases n
  rfl

@[simp] theorem children_shift : (n.shift d).children = n.children.map (shift d) := by
  cases n
  rw [shift, shifts_eq]
  rfl

theorem shift_mk {kind : NodeKind} {isNamed : Bool} {field : Option Field} {extent : Extent}
    {ns : List Node} : (Node.mk kind isNamed field extent ns).shift d =
      .mk kind isNamed field (extent.shift d) (ns.map (shift d)) := by
  rw [shift, shifts_eq]

theorem shift_inField (field : Field) : (n.inField field).shift d = (n.shift d).inField field := by
  cases n
  rfl

theorem shift_branch (kind : NodeKind) (ns : List Node) :
    (branch kind n ns).shift d = branch kind (n.shift d) (ns.map (shift d)) := by
  have hlast : (((ns.map (shift d)).getLast?.getD (n.shift d)).extent) =
      ((ns.getLast?.getD n).extent).shift d := by
    rw [List.getLast?_map]
    cases ns.getLast? with
    | none => exact extent_shift
    | some m => exact extent_shift
  rw [branch, shift_mk, branch, hlast, extent_shift]
  rfl

end Node

-- ================================================================== extents

section

variable {d} {whole : List Char}

/-- Whether a stretch is counted from the first line on. -/
def Span.Counted (s : Span) : Prop :=
  1 ≤ s.start.line ∧ 1 ≤ s.stop.line

theorem Position.point_shift {p : Position} (h : 1 ≤ p.line) :
    (p.shift d).point = p.point.shift d := by
  rw [point, point, shift, Point.shift]
  simp only [Point.mk.injEq, and_true]
  omega

theorem Span.extent_shift {s : Span} (h : s.Counted) : (s.shift d).extent = s.extent.shift d := by
  rw [extent, extent, shift, Extent.shift]
  dsimp only
  rw [Position.point_shift h.1, Position.point_shift h.2]
  rfl

theorem Span.Covers.counted {part : List Char} {s : Span} (h : s.Covers whole part) :
    s.Counted := by
  obtain ⟨before, rest, -, hstart, hstop⟩ := h
  have hline : 1 ≤ s.start.line := by
    rw [hstart, Position.line_after]
    exact Nat.le_add_right 1 _
  refine ⟨hline, ?_⟩
  rw [hstop, Position.line_after]
  omega

end

-- =================================================================== tokens

namespace Token

variable {d} {whole : List Char} {t u : Token}

/-- A node without children, further on. -/
theorem shift_word {kind : NodeKind} {isNamed : Bool} {s : Span} (h : s.Counted) :
    Node.mk kind isNamed none (s.shift d).extent [] =
      (Node.mk kind isNamed none s.extent []).shift d := by
  rw [Node.shift_mk, Span.extent_shift h]
  rfl

theorem shift_mark (h : t.Stands whole) :
    Node.anonymous (t.shift d) = (Node.anonymous t).shift d :=
  shift_word h.covers.counted

theorem shift_leaf {s : Span} (kind : NodeKind) (h : s.Counted) :
    Node.leaf kind (s.shift d) = (Node.leaf kind s).shift d :=
  shift_word h

theorem shift_number {s : Span} (h : s.Counted) :
    numberNode (s.shift d) = (numberNode s).shift d := by
  rw [numberNode, numberNode, Node.shift_branch, shift_leaf _ h]
  rfl

theorem shift_piece {part : StringPart} (h : part.span.Counted) :
    pieceNode (part.shift d) = (pieceNode part).shift d := by
  have hkind : (part.shift d).kind = part.kind := rfl
  unfold pieceNode
  rw [hkind]
  cases part.kind with
  | fragment => exact shift_leaf _ h
  | escape => exact shift_leaf _ h

/-- The quotes of a string literal are counted from its ends. -/
theorem shift_string (h : t.Stands whole) (hk : t.kind = .string) :
    stringNode (t.shift d) = (stringNode t).shift d := by
  obtain ⟨quote, hq⟩ := h.literal hk
  have hcounted := h.covers.counted
  have hquotes := hq.parts_inOrder.le
  have hopening : openingQuote (t.shift d) = (openingQuote t).shift d := by
    have hstart : (⟨t.span.start.line, t.span.start.column + 1, t.span.start.offset + 1⟩ :
        Position).shift d = ⟨(t.span.start.shift d).line, (t.span.start.shift d).column + 1,
          (t.span.start.shift d).offset + 1⟩ := by
      unfold Position.shift
      simp only [Position.mk.injEq, true_and]
      omega
    refine .trans ?_ (shift_word (s := ⟨t.span.start, _, none⟩) ⟨hcounted.1, hcounted.1⟩)
    rw [Span.shift, hstart]
    rfl
  have hclosing : closingQuote (t.shift d) = (closingQuote t).shift d := by
    have hstop : (⟨t.span.stop.line, t.span.stop.column - 1, t.span.stop.offset - 1⟩ :
        Position).shift d = ⟨(t.span.stop.shift d).line, (t.span.stop.shift d).column - 1,
          (t.span.stop.shift d).offset - 1⟩ := by
      unfold Position.shift
      simp only [Position.mk.injEq, true_and]
      omega
    refine .trans ?_ (shift_word (s := ⟨_, t.span.stop, none⟩) ⟨hcounted.2, hcounted.2⟩)
    rw [Span.shift, hstop]
    rfl
  have hpieces : (t.shift d).parts.map pieceNode = (t.parts.map pieceNode).map (Node.shift d) := by
    rw [List.map_map]
    refine (List.map_map).trans (List.map_congr_left fun part hpart => ?_)
    exact shift_piece (hq.parts_covers part hpart).counted
  rw [stringNode_eq, stringNode_eq, Node.shift_branch, List.map_append, List.map_singleton,
    hopening, hclosing, hpieces]

theorem touches_shift : touches (t.shift d) (u.shift d) = touches t u := by
  unfold touches shift Span.shift Position.shift
  simp

end Token

-- ================================================================= lockstep

namespace Shift

variable {d} {whole : List Char} {ts us rest rest' : List Token}

variable (d) in
/-- Whether a token stands in a text and another is the same further on. -/
def Moves (whole : List Char) (t u : Token) : Prop :=
  t.Stands whole ∧ u = t.shift d

variable (d) in
/-- Whether tokens stand in a text and others are the same further on. -/
def MovesAll (whole : List Char) (ts us : List Token) : Prop :=
  (∀ t ∈ ts, t.Stands whole) ∧ us = ts.map (Token.shift d)

namespace MovesAll

theorem length (h : d.MovesAll whole ts us) : us.length = ts.length := by
  rw [h.2, List.length_map]

theorem not_spared {t : Token} (h : d.MovesAll whole (t :: rest) rest) : False := by
  have hlength := h.length
  rw [List.length_cons] at hlength
  omega

theorem view (h : d.MovesAll whole ts us) :
    Sides True (d.Moves whole) (d.MovesAll whole) ts us := by
  obtain ⟨hstands, rfl⟩ := h
  cases ts with
  | nil => exact .nil
  | cons t ts =>
    obtain ⟨ht, hts⟩ := List.forall_mem_cons.1 hstands
    refine .cons ⟨ht, rfl⟩ ⟨hts, rfl⟩ ?_ fun _ s _ he _ => ?_
    · unfold isSign
      cases ts with
      | nil => rfl
      | cons n ts =>
        simp only [List.map_cons, List.head?_cons, Option.any_some, Token.touches_shift]
        rfl
    · have hts' : d.MovesAll whole (s :: ts.map (Token.shift d)) (ts.map (Token.shift d)) :=
        ⟨he ▸ hts, by rw [← he]⟩
      exact hts'.not_spared.elim

theorem brace_iff (h : d.MovesAll whole ts us) (hrest : d.MovesAll whole rest rest') :
    (lastBefore us rest').any (·.kind = .rbrace) = (lastBefore ts rest).any (·.kind = .rbrace) := by
  have hlast : lastBefore us rest' = (lastBefore ts rest).map (Token.shift d) := by
    unfold lastBefore
    rw [h.length, hrest.length, h.2, ← List.map_take, List.getLast?_map]
  rw [hlast]
  cases lastBefore ts rest <;> rfl

end MovesAll

/-- Whether nodes are the same further on. -/
def MovesNodes (d : Shift) (ns ms : List Node) : Prop :=
  ms = ns.map (Node.shift d)

theorem movesNodes_one {n m : Node} : d.MovesNodes [n] [m] ↔ m = n.shift d := by
  simp [MovesNodes]

/-- Tokens further on are parsed in lockstep. -/
theorem lockstep (d : Shift) (whole : List Char) :
    Lockstep True (d.Moves whole) (d.MovesAll whole) d.MovesNodes where
  view := MovesAll.view
  kind h := by rw [h.2]; rfl
  lexeme _ _ _ h := by rw [h.2]; rfl
  brace h hrest _ _ hbrace := by rwa [h.brace_iff hrest]
  brace_iff _ _ _ _ _ h hrest := by rw [h.brace_iff hrest]
  ends _ hrest := hrest.not_spared.elim
  nil := rfl
  append h h' := by
    unfold MovesNodes at h h' ⊢
    rw [h, h', List.map_append]
  inField field _ _ h := by
    rw [movesNodes_one] at h ⊢
    rw [h, Node.shift_inField]
  branch _ h := by
    obtain ⟨rfl, rfl⟩ := List.cons.inj h
    rw [movesNodes_one, Node.shift_branch]
  mark h := movesNodes_one.2 (by rw [h.2, Token.shift_mark h.1])
  spared h := absurd trivial h
  name h := movesNodes_one.2 (by rw [h.2, ← Token.shift_leaf _ h.1.covers.counted]; rfl)
  number h := movesNodes_one.2 (by rw [h.2, ← Token.shift_number h.1.covers.counted]; rfl)
  negative hs h _ _ := by
    rw [movesNodes_one, hs.2, h.2, ← Token.shift_number]
    · rfl
    · exact ⟨hs.1.covers.counted.1, h.1.covers.counted.2⟩
  string h hk := movesNodes_one.2 (by rw [h.2, Token.shift_string h.1 hk])

end Shift

/-- Statements further on in a text. -/
theorem Parser.statements_shift {whole : List Char} {stop : Span} (stop' : Span)
    {ts : List Token} {ns : List Node} (hts : ∀ t ∈ ts, t.Stands whole)
    (h : statements stop ts = .ok ns) :
    statements stop' (ts.map (Token.shift d)) = .ok (ns.map (Node.shift d)) := by
  have hends := (d.lockstep whole).reads_statements stop stop' ts _ ⟨hts, rfl⟩
  rw [h] at hends
  generalize statements stop' (ts.map (Token.shift d)) = result at hends ⊢
  cases hends with
  | ok hnodes => rw [hnodes]

end SamScript
