/-
Trees without their places. The sketch of a node keeps its kind, its role,
what is below it, and what its bytes spell if it is a word or a mark of the
text; where all that stands is lost. So trees of texts that differ in layout
alone can have one sketch, and whatever asks for no place is a matter of the
sketch: the tree in parentheses (`sexp_of_sketch`), and the nodes in order
(`sketch_preorder`).
-/
import SamScript.Proofs.Token.Pieces
import SamScript.Proofs.Tree.Shape
import SamScript.Tree.Outline

namespace SamScript

open Utf8

-- =============================================================== sketches

/-- A tree without places. -/
inductive Sketch where
  | mk (kind : NodeKind) (isNamed : Bool) (field : Option Field) (text : List UInt8)
    (children : List Sketch)

/-- The kinds of the named nodes that are words of the text. -/
def NodeKind.isWord : NodeKind → Bool
  | .identifier | .number | .stringFragment | .escapeSequence => true
  | _ => false

namespace Sketch

/-- A mark of the text: a keyword, an operator or punctuation. -/
def mark (text : List Char) : Sketch :=
  .mk (.ofText (String.ofList text)) false none (encode text) []

/-- A word of the text. -/
def word (kind : NodeKind) (text : List Char) : Sketch :=
  .mk kind true none (encode text) []

/-- A named node over some children. -/
def branch (kind : NodeKind) (children : List Sketch) : Sketch :=
  .mk kind true none [] children

/-- The same in a role. -/
def inField (field : Field) : Sketch → Sketch
  | .mk kind isNamed _ text children => .mk kind isNamed (some field) text children

/-- A piece of a string literal. -/
def piece : Scan.Piece → Sketch
  | (.fragment, text) => word .stringFragment text
  | (.escape, text) => word .escapeSequence text

/-- A string literal: a quote, its pieces, a quote. -/
def string (quote : Char) (pieces : List Scan.Piece) : Sketch :=
  branch .string (mark [quote] :: (pieces.map piece ++ [mark [quote]]))

end Sketch

namespace Node

/-- What the bytes of a node spell, if it is a word or a mark. -/
def spelling (n : Node) (source : List UInt8) : List UInt8 :=
  if n.isNamed && !n.kind.isWord then [] else n.bytes source

mutual

/-- A node of a text without its place. -/
def sketch (source : List UInt8) : Node → Sketch
  | n@(.mk kind isNamed field _ children) =>
    .mk kind isNamed field (n.spelling source) (sketches source children)

/-- Some nodes of a text without their places. -/
def sketches (source : List UInt8) : List Node → List Sketch
  | [] => []
  | n :: rest => sketch source n :: sketches source rest

end

variable {source : List UInt8} {n : Node}

theorem sketches_eq (ns : List Node) : sketches source ns = ns.map (sketch source) := by
  induction ns with
  | nil => rfl
  | cons n rest ih => rw [sketches, List.map_cons, ih]

theorem sketch_eq (n : Node) : n.sketch source =
    .mk n.kind n.isNamed n.field (n.spelling source) (n.children.map (sketch source)) := by
  cases n
  rw [sketch, sketches_eq]
  rfl

theorem sketch_inField (field : Field) : (n.inField field).sketch source =
    (n.sketch source).inField field := by
  cases n
  rfl

theorem sketch_branch {kind : NodeKind} (hk : kind.isWord = false) (ns : List Node) :
    (branch kind n ns).sketch source = .branch kind ((n :: ns).map (sketch source)) := by
  have hspelling : (branch kind n ns).spelling source = [] := by
    show (if (true && !kind.isWord) = true then [] else _) = []
    rw [hk]
    rfl
  rw [sketch_eq, hspelling]
  rfl

theorem sketch_leaf {whole part : List Char} {kind : NodeKind} {s : Span}
    (hk : kind.isWord = true) (hs : s.Covers whole part) :
    (leaf kind s).sketch (encode whole) = .word kind part := by
  have hspelling : (leaf kind s).spelling (encode whole) = encode part := by
    show (if (true && !kind.isWord) = true then [] else _) = encode part
    rw [hk]
    exact hs.slice_eq
  rw [sketch_eq, hspelling]
  rfl

theorem sketch_mark {whole part : List Char} {s : Span} (hs : s.Covers whole part) :
    (Node.mk (.ofText (String.ofList part)) false none s.extent []).sketch (encode whole) =
      .mark part := by
  have hspelling : (Node.mk (.ofText (String.ofList part)) false none s.extent []).spelling
      (encode whole) = encode part := hs.slice_eq
  rw [sketch_eq, hspelling]
  rfl

end Node

-- ================================================================= tokens

open SamScript.Parser

namespace Token.Stands

variable {whole : List Char} {t m : Token}

theorem sketch_anonymous (h : t.Stands whole) :
    (Node.anonymous t).sketch (encode whole) = .mark t.lexeme.toList := by
  have := Node.sketch_mark h.covers
  rwa [String.ofList_toList] at this

theorem sketch_name (h : t.Stands whole) :
    (Node.leaf .identifier t.span).sketch (encode whole) = .word .identifier t.lexeme.toList :=
  Node.sketch_leaf rfl h.covers

theorem sketch_number (h : t.Stands whole) : (numberNode t.span).sketch (encode whole) =
    .branch .literal [.word .number t.lexeme.toList] := by
  rw [numberNode, Node.sketch_branch rfl, List.map_singleton, Node.sketch_leaf rfl h.covers]

/-- A number with its sign. -/
theorem sketch_negative (hm : m.Stands whole) (h : t.Stands whole) (htouch : touches m t) :
    (numberNode { m.span with stop := t.span.stop }).sketch (encode whole) =
      .branch .literal [.word .number (m.lexeme.toList ++ t.lexeme.toList)] := by
  have hjoin := hm.covers.join h.covers (of_decide_eq_true htouch)
  rw [numberNode, Node.sketch_branch rfl, List.map_singleton, Node.sketch_leaf rfl hjoin]

theorem sketch_piece {part : StringPart} (h : part.span.Covers whole part.text.toList) :
    (pieceNode part).sketch (encode whole) = .piece part.piece := by
  unfold pieceNode StringPart.piece
  cases part.kind with
  | fragment => exact Node.sketch_leaf rfl h
  | escape => exact Node.sketch_leaf rfl h

theorem sketch_string {quote : Char} (h : t.Stands whole) (hq : t.Literal whole quote) :
    (stringNode t).sketch (encode whole) = .string quote t.pieces := by
  obtain ⟨hs, hu⟩ := hq.quotes_cover h
  have hpieces : (t.parts.map pieceNode).map (Node.sketch (encode whole)) =
      t.pieces.map Sketch.piece := by
    rw [Token.pieces, List.map_map, List.map_map]
    exact List.map_congr_left fun part hpart => sketch_piece (hq.parts_covers part hpart)
  rw [stringNode_eq, Node.sketch_branch rfl, List.map_cons, List.map_append, hpieces,
    List.map_singleton, openingQuote_eq hq, closingQuote_eq h hq, Node.sketch_mark hs,
    Node.sketch_mark hu]
  rfl

end Token.Stands

-- ============================================== what a sketch determines

namespace Node

variable {a b : List UInt8} {n m : Node}

/-- What nodes of one sketch have in common. -/
theorem of_sketch_eq (h : n.sketch a = m.sketch b) :
    n.kind = m.kind ∧ n.isNamed = m.isNamed ∧ n.field = m.field ∧
      n.spelling a = m.spelling b ∧ n.children.map (sketch a) = m.children.map (sketch b) := by
  rw [sketch_eq, sketch_eq] at h
  injection h with hkind hnamed hfield hspelling hchildren
  exact ⟨hkind, hnamed, hfield, hspelling, hchildren⟩

/-- What is the same for nodes of one sketch as soon as it is the same for
all their children, is the same. -/
theorem sketch_induction {γ : Type} {f : Node → γ} {g : Node → γ}
    (step : ∀ n m : Node, n.sketch a = m.sketch b → n.children.map f = m.children.map g →
      f n = g m) (n : Node) : ∀ m, n.sketch a = m.sketch b → f n = g m := by
  induction n using children_induction with
  | step n ih =>
    intro m h
    refine step n m h ?_
    have hchildren := (of_sketch_eq h).2.2.2.2
    generalize n.children = ns at ih hchildren
    generalize m.children = ms at hchildren
    induction ns generalizing ms with
    | nil =>
      rw [List.map_nil, eq_comm, List.map_eq_nil_iff] at hchildren
      rw [hchildren]
      rfl
    | cons n ns ihs =>
      rw [List.forall_mem_cons] at ih
      cases ms with
      | nil => cases hchildren
      | cons m ms =>
        obtain ⟨hn, hns⟩ := List.cons.inj hchildren
        rw [List.map_cons, List.map_cons, ih.1 m hn, ihs ih.2 ms hns]

theorem sexp_eq (n : Node) :
    n.sexp = "(" ++ " ".intercalate (n.kind.text :: sexps n.children) ++ ")" := by
  cases n
  rw [sexp]
  rfl

theorem sexps_eq (ns : List Node) : sexps ns =
    ((ns.map fun n => (n.isNamed, n.field, n.sexp)).filter Prod.fst).map
      fun p => labelled p.2.1 p.2.2 := by
  induction ns with
  | nil => rfl
  | cons n rest ih =>
    rw [sexps, List.map_cons, List.filter_cons, ih]
    dsimp only
    split <;> rfl

/-- Nodes of one sketch are the same in parentheses. -/
theorem sexp_of_sketch (h : n.sketch a = m.sketch b) : n.sexp = m.sexp := by
  have hthis := sketch_induction (a := a) (b := b)
    (f := fun n => (n.isNamed, n.field, n.sexp)) (g := fun n => (n.isNamed, n.field, n.sexp))
    (fun n m h hchildren => ?_) n m h
  · exact (Prod.mk.inj (Prod.mk.inj hthis).2).2
  · obtain ⟨hkind, hnamed, hfield, -⟩ := of_sketch_eq h
    rw [sexp_eq n, sexp_eq m, sexps_eq, sexps_eq, hkind, hnamed, hfield, hchildren]

theorem preorders_eq (ns : List Node) : preorders ns = (ns.map preorder).flatten := by
  induction ns with
  | nil => rfl
  | cons n rest ih => rw [preorders, List.map_cons, List.flatten_cons, ih]

/-- Nodes of one sketch have nodes of the same sketches below them, in the
same order. -/
theorem sketch_preorder (h : n.sketch a = m.sketch b) :
    n.preorder.map (sketch a) = m.preorder.map (sketch b) := by
  refine sketch_induction (f := fun n => n.preorder.map (sketch a))
    (g := fun m => m.preorder.map (sketch b)) (fun n m h hchildren => ?_) n m h
  have hflat {source : List UInt8} (ns : List Node) : (preorders ns).map (sketch source) =
      (ns.map fun n => n.preorder.map (sketch source)).flatten := by
    rw [preorders_eq, List.map_flatten, List.map_map]
    rfl
  rw [preorder_eq n, preorder_eq m, List.map_cons, List.map_cons, h, hflat, hflat, hchildren]

end Node

section

variable {source : List UInt8} {n : Node} {kind : NodeKind} {ss : List Sketch}

/-- A named node over some children, in a role or none. -/
theorem of_sketch_mk {field : Option Field} (h : n.sketch source = .mk kind true field [] ss) :
    n.Is kind ∧ n.field = field ∧ n.children.map (Node.sketch source) = ss := by
  rw [Node.sketch_eq] at h
  injection h with hkind hnamed hfield _ hchildren
  exact ⟨⟨hnamed, hkind⟩, hfield, hchildren⟩

theorem of_sketch_branch (h : n.sketch source = .branch kind ss) :
    n.Is kind ∧ n.children.map (Node.sketch source) = ss := by
  obtain ⟨hkind, -, hchildren⟩ := of_sketch_mk h
  exact ⟨hkind, hchildren⟩

/-- A word of the text, in a role or none. -/
theorem of_sketch_leaf {field : Option Field} {text : List Char} (hk : kind.isWord = true)
    (h : n.sketch source = .mk kind true field (Utf8.encode text) []) :
    n.Is kind ∧ n.field = field ∧ n.bytes source = Utf8.encode text ∧ n.children = [] := by
  rw [Node.sketch_eq] at h
  injection h with hkind hn hfield hspelling hchildren
  refine ⟨⟨hn, hkind⟩, hfield, ?_, List.map_eq_nil_iff.1 hchildren⟩
  rwa [Node.spelling, hn, hkind, hk] at hspelling

theorem of_sketch_word {text : List Char} (hk : kind.isWord = true)
    (h : n.sketch source = .word kind text) :
    n.Is kind ∧ n.bytes source = Utf8.encode text ∧ n.children = [] := by
  obtain ⟨hkind, -, hbytes, hchildren⟩ := of_sketch_leaf hk h
  exact ⟨hkind, hbytes, hchildren⟩

theorem of_sketch_mark {text : List Char} (h : n.sketch source = .mark text) :
    n.isNamed = false ∧ n.children = [] := by
  rw [Node.sketch_eq] at h
  injection h with _ hn _ _ hchildren
  exact ⟨hn, List.map_eq_nil_iff.1 hchildren⟩

/-- Whether a sketch is one of a named node. -/
def Sketch.isNamed : Sketch → Bool
  | .mk _ isNamed _ _ _ => isNamed

/-- The role of a node with a sketch. -/
def Sketch.field : Sketch → Option Field
  | .mk _ _ field _ _ => field

theorem Sketch.field_inField (field : Field) (s : Sketch) :
    (s.inField field).field = some field := by
  cases s
  rfl

theorem Node.field_of_sketch {s : Sketch} (h : n.sketch source = s) : n.field = s.field := by
  rw [← h, sketch_eq]
  rfl

/-- The named children of a node are those with named sketches. -/
theorem Node.named_of_sketch (h : n.children.map (sketch source) = ss) :
    n.named.map (sketch source) = ss.filter Sketch.isNamed := by
  have hnamed : Sketch.isNamed ∘ sketch source = isNamed := by
    funext m
    rw [Function.comp_apply, sketch_eq]
    rfl
  rw [← h, List.filter_map, hnamed]
  rfl

end

end SamScript
