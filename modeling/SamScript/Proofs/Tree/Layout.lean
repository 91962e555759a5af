/-
How nodes lie over tokens. Of all that the grammar says, `Laid` keeps only
which tokens became which leaves and which nodes were put together, in the
order of the text; grouping parentheses leave no node. Whatever concerns
places, and not kinds, is an induction over `Laid`: the stretches of the
children of a node follow each other inside its own (`Laid.inOrder`), they
begin and end between characters (`Laid.placed`), and a punctuation mark
is what its bytes spell (`Laid.marked`).
-/
import SamScript.Proofs.Token.Coordinates
import SamScript.Proofs.Tree.Grammar
import SamScript.Proofs.Tree.Preorder

namespace SamScript

/-- Nodes over tokens. -/
inductive Laid : List Token → List Node → Prop where
  | nil : Laid [] []
  | mark (t : Token) : Laid [t] [.anonymous t]
  | name {t : Token} : t.kind = .identifier → Laid [t] [.leaf .identifier t.span]
  | number {t : Token} : t.kind = .number → Laid [t] [.leaf .number t.span]
  | negative {m t : Token} : m.kind = .minus → t.kind = .number → Parser.touches m t →
      Laid [m, t] [.leaf .number { m.span with stop := t.span.stop }]
  | string {t : Token} : t.kind = .string → Laid [t] [Parser.stringNode t]
  | append {ts us : List Token} {ns ms : List Node} : Laid ts ns → Laid us ms →
      Laid (ts ++ us) (ns ++ ms)
  | branch {ts : List Token} {n : Node} {ns : List Node} (kind : NodeKind) : Laid ts (n :: ns) →
      Laid ts [.branch kind n ns]
  | inField {ts : List Token} {n : Node} (field : Field) : Laid ts [n] → Laid ts [n.inField field]
  | group {ts : List Token} {ns : List Node} (o c : Token) : Laid ts ns →
      Laid ([o] ++ (ts ++ [c])) ns

namespace Laid

theorem inOptional {ts : List Token} {n : Node} (field : Option Field) (h : Laid ts [n]) :
    Laid ts [n.inOptional field] := by
  cases field with
  | none => exact h
  | some field => exact h.inField field

end Laid

/-- The nodes of a phrase lie over its tokens. -/
theorem Spells.laid {p : Phrase} {ts : List Token} {ns : List Node} (h : Spells p ts ns) :
    Laid ts ns := by
  induction h with
  | number ht => exact .branch _ (.number ht)
  | negative hm ht htouch => exact .branch _ (.negative hm ht htouch)
  | string ht => exact .branch _ (.string ht)
  | name ht => exact .name ht
  | group _ _ _ ih => exact .group _ _ ih
  | array _ _ ih => exact .branch _ (.append (.mark _) ih)
  | lambda _ _ _ ihhead ihbody =>
    exact .branch _ (.append (.mark _) (.append ihhead (ihbody.inField _)))
  | conditional _ ih => exact ih
  | call _ _ _ ihcallee ihitems =>
    exact .branch _ (.append (ihcallee.inField _) (.append (.mark _) ihitems))
  | access _ _ ht ih =>
    exact .branch _ (.append (ih.inField _) (.append (.mark _) ((Laid.name ht).inField _)))
  | binary _ _ _ ihleft ihright =>
    exact .branch _ (.append (ihleft.inField _) (.append (.mark _) (ihright.inField _)))
  | if_ _ _ _ _ _ _ ihcondition ihblock ihalternative =>
    exact .branch _ (.append (.mark _) (.append (.mark _) (.append (ihcondition.inField _)
      (.append (.mark _) (.append (ihblock.inField _) ihalternative)))))
  | noElse => exact .nil
  | elseIf _ _ ih => exact .append (.mark _) (ih.inField _)
  | elseBlock _ _ ih => exact .append (.mark _) (ih.inField _)
  | arrow _ _ => exact .append (.mark _) (.mark _)
  | parameter _ ht _ ih => exact .append (.mark _) (.append ((Laid.name ht).inField _) ih)
  | bare _ _ ih => exact ih
  | parameters ht _ ih => exact .append ((Laid.name ht).inField _) ih
  | close _ => exact .mark _
  | last _ _ ih => exact .append (ih.inOptional _) (.mark _)
  | item _ _ _ ihitem ihmore => exact .append (ihitem.inOptional _) (.append (.mark _) ihmore)
  | block _ _ ih => exact .branch _ (.append (.mark _) ih)
  | brace _ => exact .mark _
  | inner _ _ _ ihfirst ihmore => exact .append ihfirst ihmore
  | noSemicolon => exact .nil
  | semicolon _ => exact .mark _
  | declaration _ _ _ ih ihending => exact .branch _ (.append (.mark _) (.append ih ihending))
  | return_ _ _ ih => exact .branch _ (.append (.mark _) ih)
  | returnValue _ _ _ ih ihending =>
    exact .branch _ (.append (.mark _) (.append (ih.inField _) ihending))
  | assignment ht _ _ _ ih ihending =>
    exact .branch _ (.append ((Laid.name ht).inField _) (.append (.mark _)
      (.append (ih.inField _) ihending)))
  | plain _ _ ih ihending => exact .branch _ (.append ih ihending)
  | variable_ ht => exact .branch _ ((Laid.name ht).inField _)
  | variableValue ht _ _ ih =>
    exact .branch _ (.append ((Laid.name ht).inField _) (.append (.mark _) (ih.inField _)))
  | declarator _ ih => exact ih
  | declarators _ _ _ ih ihmore => exact .append ih (.append (.mark _) ihmore)
  | interface_ _ hpath _ ht _ ih =>
    exact .branch _ (.append (.mark _) (.append ((Laid.string hpath).inField _)
      (.append (.mark _) (.append ((Laid.name ht).inField _) ih))))
  | noInterfaces => exact .nil
  | interfaces _ _ ih ihmore => exact .append ih ihmore
  | noStatements => exact .nil
  | statements _ _ _ ih ihmore => exact .append ih ihmore

-- ====================================================== string literals

namespace Parser

/-- The opening quote of a string literal. -/
def openingQuote (t : Token) : Node :=
  .mk (.ofText (String.ofList t.lexeme.toList.head?.toList)) false none
    (Span.extent ⟨t.span.start,
      { t.span.start with column := t.span.start.column + 1, offset := t.span.start.offset + 1 },
      none⟩) []

/-- The closing quote of a string literal. -/
def closingQuote (t : Token) : Node :=
  .mk (.ofText (String.ofList t.lexeme.toList.getLast?.toList)) false none
    (Span.extent ⟨{ t.span.stop with
      column := t.span.stop.column - 1, offset := t.span.stop.offset - 1 }, t.span.stop, none⟩) []

/-- The node of a piece of a string literal. -/
def pieceNode (part : StringPart) : Node :=
  match part.kind with
  | .fragment => Node.leaf .stringFragment part.span
  | .escape => Node.leaf .escapeSequence part.span

theorem stringNode_eq (t : Token) :
    stringNode t
      = .branch .string (openingQuote t) (t.parts.map pieceNode ++ [closingQuote t]) := rfl

theorem pieceNode_eq (part : StringPart) :
    ∃ kind, pieceNode part = .leaf kind part.span := by
  unfold pieceNode
  split
  · exact ⟨_, rfl⟩
  · exact ⟨_, rfl⟩

theorem extent_pieceNode (part : StringPart) : (pieceNode part).extent = part.span.extent := by
  obtain ⟨kind, hk⟩ := pieceNode_eq part
  rw [hk]
  rfl

/-- The node of a string literal covers the token. -/
theorem extent_stringNode (t : Token) : (stringNode t).extent = t.span.extent := by
  rw [stringNode_eq]
  show (openingQuote t).extent.through
    ((t.parts.map pieceNode ++ [closingQuote t]).getLast?.getD (openingQuote t)).extent = _
  rw [List.getLast?_concat, Option.getD_some]
  rfl

theorem mem_children_stringNode {t : Token} {c : Node} :
    c ∈ (stringNode t).children ↔
      c = openingQuote t ∨ (∃ part ∈ t.parts, c = pieceNode part) ∨ c = closingQuote t := by
  rw [stringNode_eq]
  show c ∈ openingQuote t :: (t.parts.map pieceNode ++ [closingQuote t]) ↔ _
  rw [List.mem_cons, List.mem_append, List.mem_map, List.mem_singleton]
  simp only [eq_comm]

end Parser

-- ================================================================ order

open SamScript.Parser

/-- Whether the children of a node follow each other inside it. -/
def Node.Ordered (n : Node) : Prop :=
  InOrder n.extent.startByte n.extent.endByte (n.children.map extent)

theorem Node.all_of_childless {n : Node} {p : Node → Prop} (h : n.children = []) (hn : p n) :
    n.All p := by
  refine Node.all_iff.2 ⟨hn, fun c hc => ?_⟩
  rw [h] at hc
  cases hc

/-- A string literal has its quotes and pieces in order. -/
theorem stringNode_ordered {whole : List Char} {t : Token} {quote : Char}
    (h : t.Literal whole quote) : (stringNode t).All Node.Ordered := by
  refine Node.all_iff.2 ⟨?_, fun c hc => ?_⟩
  · show InOrder _ _ _
    have hle := h.parts_inOrder.le
    rw [extent_stringNode, stringNode_eq]
    show InOrder t.span.start.offset t.span.stop.offset
      ((openingQuote t).extent :: (t.parts.map pieceNode ++ [closingQuote t]).map Node.extent)
    have hparts : (t.parts.map pieceNode).map Node.extent = t.parts.map (·.span.extent) := by
      rw [List.map_map]
      exact List.map_congr_left fun part _ => extent_pieceNode part
    rw [List.map_append, hparts]
    refine ⟨Nat.le_refl _, Nat.lt_succ_self _, h.parts_inOrder.append ⟨Nat.le_refl _, ?_, ?_⟩⟩
    · show t.span.stop.offset - 1 < t.span.stop.offset
      omega
    · exact Nat.le_refl _
  · have hle := h.parts_inOrder.le
    rcases mem_children_stringNode.1 hc with rfl | ⟨part, hpart, rfl⟩ | rfl
    · exact Node.all_of_childless rfl (Nat.le_succ _)
    · obtain ⟨kind, hk⟩ := pieceNode_eq part
      rw [hk]
      have := h.parts_inOrder.of_mem (List.mem_map_of_mem hpart)
      exact Node.all_of_childless rfl (Nat.le_of_lt this.2.1)
    · exact Node.all_of_childless rfl (Nat.sub_le _ _)

namespace Laid

variable {whole : List Char} {ts : List Token} {ns : List Node} {lo hi : Nat}

/-- Over tokens in order, nodes are in order, and so are all nodes below
each of them. -/
theorem inOrder (h : Laid ts ns) (hstands : ∀ t ∈ ts, t.Stands whole)
    (hin : InOrder lo hi (ts.map (·.span.extent))) :
    InOrder lo hi (ns.map Node.extent) ∧ ∀ n ∈ ns, n.All Node.Ordered := by
  have hleaf (kind : NodeKind) (isNamed : Bool) (x : Extent) (hx : x.startByte ≤ x.endByte) :
      ∀ n ∈ [Node.mk kind isNamed none x []], n.All Node.Ordered := by
    intro n hn
    rw [List.mem_singleton.1 hn]
    exact Node.all_of_childless rfl hx
  induction h generalizing lo hi with
  | nil => exact ⟨hin, fun n hn => absurd hn List.not_mem_nil⟩
  | mark t => exact ⟨hin, hleaf _ _ _ (Nat.le_of_lt hin.2.1)⟩
  | name _ => exact ⟨hin, hleaf _ _ _ (Nat.le_of_lt hin.2.1)⟩
  | number _ => exact ⟨hin, hleaf _ _ _ (Nat.le_of_lt hin.2.1)⟩
  | @negative m t _ _ _ =>
    obtain ⟨hlo, hm, hmt, ht, hhi⟩ := hin
    have hlt : m.span.start.offset < t.span.stop.offset :=
      Nat.lt_trans hm (Nat.lt_of_le_of_lt hmt ht)
    exact ⟨⟨hlo, hlt, hhi⟩, hleaf _ _ _ (Nat.le_of_lt hlt)⟩
  | @string t ht =>
    obtain ⟨quote, hq⟩ := (hstands t List.mem_cons_self).literal ht
    refine ⟨?_, fun n hn => ?_⟩
    · rw [List.map_singleton, extent_stringNode]
      exact hin
    · rw [List.mem_singleton.1 hn]
      exact stringNode_ordered hq
  | append _ _ ihts ihus =>
    rw [List.map_append] at hin
    rw [List.forall_mem_append] at hstands
    obtain ⟨mid, hts, hus⟩ := hin.of_append
    obtain ⟨hn, hns⟩ := ihts hstands.1 hts
    obtain ⟨hm, hms⟩ := ihus hstands.2 hus
    refine ⟨?_, List.forall_mem_append.2 ⟨hns, hms⟩⟩
    rw [List.map_append]
    exact hn.append hm
  | @branch ts n ns kind _ ih =>
    obtain ⟨hn, hns⟩ := ih hstands hin
    have hlast : (ns.map Node.extent).getLast?.getD n.extent = (ns.getLast?.getD n).extent := by
      rw [List.getLast?_map, Option.getD_map]
    refine ⟨?_, fun m hm => ?_⟩
    · show InOrder lo hi [n.extent.through (ns.getLast?.getD n).extent]
      rw [← hlast]
      exact InOrder.span_through hn
    · rw [List.mem_singleton.1 hm]
      refine Node.all_iff.2 ⟨?_, hns⟩
      show InOrder (n.extent.through (ns.getLast?.getD n).extent).startByte
        (n.extent.through (ns.getLast?.getD n).extent).endByte ((n :: ns).map Node.extent)
      rw [← hlast]
      exact InOrder.through hn
  | @inField ts n field _ ih =>
    obtain ⟨hn, hns⟩ := ih hstands hin
    refine ⟨?_, fun m hm => ?_⟩
    · cases n
      exact hn
    · rw [List.mem_singleton.1 hm]
      have hself := hns n List.mem_cons_self
      refine hself.inField ?_
      cases n
      exact hself.self
  | @group ts ns o c _ ih =>
    obtain ⟨hlo, ho, hrest⟩ : lo ≤ o.span.extent.startByte ∧
      o.span.extent.startByte < o.span.extent.endByte ∧
        InOrder o.span.extent.endByte hi ((ts ++ [c]).map fun t : Token => t.span.extent) := hin
    rw [List.map_append] at hrest
    obtain ⟨mid, hts, hc⟩ := hrest.of_append
    have hmem : ∀ t ∈ ts, t.Stands whole := fun t ht =>
      hstands t (List.mem_append_right _ (List.mem_append_left _ ht))
    obtain ⟨hn, hns⟩ := ih hmem hts
    have := hc.le
    exact ⟨hn.widen (by omega) (by omega), hns⟩

end Laid

-- ============================================================== places

/-- Whether a stretch begins and ends at places of a text. -/
def Extent.Placed (whole : List Char) (x : Extent) : Prop :=
  ∃ s : Span, s.start.Within whole ∧ s.stop.Within whole ∧ x = s.extent

theorem Span.Covers.placed {whole part : List Char} {s : Span} (h : s.Covers whole part) :
    s.extent.Placed whole := by
  obtain ⟨before, rest, hw, hstart, hstop⟩ := h
  refine ⟨s, ⟨before, part ++ rest, ?_, hstart⟩, ⟨before ++ part, rest, hw, ?_⟩, rfl⟩
  · rw [← hw, List.append_assoc]
  · rw [hstop, hstart, Position.after_append]

theorem Extent.Placed.through {whole : List Char} {x y : Extent} (hx : x.Placed whole)
    (hy : y.Placed whole) : (x.through y).Placed whole := by
  obtain ⟨s, hstart, -, rfl⟩ := hx
  obtain ⟨t, -, hstop, rfl⟩ := hy
  exact ⟨⟨s.start, t.stop, none⟩, hstart, hstop, rfl⟩

-- ========================================================= every node

/-- The opening quote covers the first character of a literal. -/
theorem openingQuote_eq {whole : List Char} {t : Token} {quote : Char}
    (h : t.Literal whole quote) : openingQuote t = .mk (.ofText (String.ofList [quote])) false none
      (Span.extent ⟨t.span.start, t.span.start.after [quote], none⟩) [] := by
  have hafter : t.span.start.after [quote] =
      { t.span.start with
        column := t.span.start.column + 1, offset := t.span.start.offset + 1 } := by
    rcases h.quote_eq with rfl | rfl <;> rfl
  rw [openingQuote, h.lexeme_eq, hafter]
  rfl

/-- The closing quote covers its last character. -/
theorem closingQuote_eq {whole : List Char} {t : Token} {quote : Char} (hc : t.Stands whole)
    (h : t.Literal whole quote) : closingQuote t = .mk (.ofText (String.ofList [quote])) false none
      (Span.extent ⟨t.span.start.after (quote :: StringPart.texts t.parts), t.span.stop, none⟩)
      [] := by
  obtain ⟨-, -, -, -, hstop⟩ := hc.covers
  rw [h.lexeme_eq, Position.after_append] at hstop
  have hback : { t.span.stop with
      column := t.span.stop.column - 1, offset := t.span.stop.offset - 1 } =
        t.span.start.after (quote :: StringPart.texts t.parts) := by
    rw [hstop]
    rcases h.quote_eq with rfl | rfl <;> rfl
  rw [closingQuote, h.lexeme_eq, hback, List.getLast?_concat]
  rfl

/-- Both are quotes of the text. -/
theorem Token.Literal.quotes_cover {whole : List Char} {t : Token} {quote : Char}
    (hc : t.Stands whole) (h : t.Literal whole quote) :
    Span.Covers whole [quote] ⟨t.span.start, t.span.start.after [quote], none⟩ ∧
      Span.Covers whole [quote]
        ⟨t.span.start.after (quote :: StringPart.texts t.parts), t.span.stop, none⟩ := by
  have hcovers := hc.covers
  rw [h.lexeme_eq] at hcovers
  exact ⟨Span.Covers.front (b := StringPart.texts t.parts ++ [quote]) hcovers, hcovers.back⟩

/-- What holds of the leaves of a text, and of a node if it holds of its
children, holds of all nodes over tokens of the text. -/
theorem Laid.all {whole : List Char} {ts : List Token} {ns : List Node} {p : Node → Prop}
    (hmark : ∀ (text : String) (s : Span), s.Covers whole text.toList →
      p (.mk (.ofText text) false none s.extent []))
    (hleaf : ∀ (kind : NodeKind) (s : Span) (part : List Char), s.Covers whole part →
      p (.leaf kind s))
    (hbranch : ∀ (kind : NodeKind) (n : Node) (ns : List Node), (∀ c ∈ n :: ns, p c) →
      p (.branch kind n ns))
    (hfield : ∀ (n : Node) (field : Field), p n → p (n.inField field))
    (h : Laid ts ns) (hstands : ∀ t ∈ ts, t.Stands whole) : ∀ n ∈ ns, n.All p := by
  have hone {n : Node} (hn : n.All p) : ∀ m ∈ [n], m.All p := by
    intro m hm
    rw [List.mem_singleton.1 hm]
    exact hn
  have hnode {kind : NodeKind} {n : Node} {ns : List Node} (hns : ∀ c ∈ n :: ns, c.All p) :
      (Node.branch kind n ns).All p :=
    Node.all_iff.2 ⟨hbranch kind n ns fun c hc => (hns c hc).self, hns⟩
  induction h with
  | nil => exact fun n hn => absurd hn List.not_mem_nil
  | mark t =>
    have ht := hstands t List.mem_cons_self
    exact hone (Node.all_of_childless rfl (hmark _ _ ht.covers))
  | @name t _ =>
    exact hone (Node.all_of_childless rfl (hleaf _ _ _ (hstands t List.mem_cons_self).covers))
  | @number t _ =>
    exact hone (Node.all_of_childless rfl (hleaf _ _ _ (hstands t List.mem_cons_self).covers))
  | @negative m t _ _ htouch =>
    have hm := hstands m List.mem_cons_self
    have ht := hstands t (List.mem_cons_of_mem _ List.mem_cons_self)
    exact hone (Node.all_of_childless rfl
      (hleaf _ _ _ (hm.covers.join ht.covers (of_decide_eq_true htouch))))
  | @string t hk =>
    have ht := hstands t List.mem_cons_self
    obtain ⟨quote, hq⟩ := ht.literal hk
    obtain ⟨hs, hu⟩ := hq.quotes_cover ht
    have hquote {s : Span} (hs : s.Covers whole [quote]) :
        p (.mk (.ofText (String.ofList [quote])) false none s.extent []) := by
      refine hmark _ s ?_
      rwa [String.toList_ofList]
    refine hone (hnode fun c hc => ?_)
    rcases mem_children_stringNode.1 hc with rfl | ⟨part, hpart, rfl⟩ | rfl
    · rw [openingQuote_eq hq]
      exact Node.all_of_childless rfl (hquote hs)
    · obtain ⟨kind, hkind⟩ := pieceNode_eq part
      rw [hkind]
      exact Node.all_of_childless rfl (hleaf _ _ _ (hq.parts_covers part hpart))
    · rw [closingQuote_eq ht hq]
      exact Node.all_of_childless rfl (hquote hu)
  | append _ _ ihts ihus =>
    rw [List.forall_mem_append] at hstands
    exact List.forall_mem_append.2 ⟨ihts hstands.1, ihus hstands.2⟩
  | branch kind _ ih => exact hone (hnode (ih hstands))
  | @inField ts n field _ ih =>
    have hn := ih hstands n List.mem_cons_self
    exact hone (hn.inField (hfield n field hn.self))
  | group o c _ ih =>
    exact ih fun t ht => hstands t (List.mem_append_right _ (List.mem_append_left _ ht))

/-- All nodes begin and end at places of the text. -/
theorem Laid.placed {whole : List Char} {ts : List Token} {ns : List Node} (h : Laid ts ns)
    (hstands : ∀ t ∈ ts, t.Stands whole) : ∀ n ∈ ns, n.All (·.extent.Placed whole) := by
  refine h.all (fun text s hs => hs.placed) (fun kind s part hs => hs.placed) ?_ ?_ hstands
  · intro kind n ns hns
    refine (hns n List.mem_cons_self).through ?_
    cases hlast : ns.getLast? with
    | none => exact hns n List.mem_cons_self
    | some m => exact hns m (List.mem_cons_of_mem _ (List.mem_of_getLast? hlast))
  · intro n field hn
    cases n
    exact hn

/-- Whether a node, if it is no part of the structure, is called what its
bytes spell. -/
def Node.Marked (source : List UInt8) (n : Node) : Prop :=
  n.isNamed = false → n.bytes source = Utf8.encode n.kind.text.toList

/-- Punctuation marks, keywords and operators are called what they are. -/
theorem Laid.marked {whole : List Char} {ts : List Token} {ns : List Node} (h : Laid ts ns)
    (hstands : ∀ t ∈ ts, t.Stands whole) : ∀ n ∈ ns, n.All (Node.Marked (Utf8.encode whole)) := by
  refine h.all (fun text s hs _ => ?_) (fun kind s part hs hn => by cases hn)
    (fun kind n ns hns hn => by cases hn) (fun n field hn => ?_) hstands
  · show slice _ s.start.offset s.stop.offset = Utf8.encode (NodeKind.ofText text).text.toList
    rw [NodeKind.text_ofText]
    exact hs.slice_eq
  · cases n
    exact hn

/-- Whether a node, if it is no part of the structure, has nothing below
it. -/
def Node.Bare (n : Node) : Prop :=
  n.isNamed = false → n.children = []

/-- Punctuation marks, keywords and operators have nothing below them. -/
theorem Laid.bare {whole : List Char} {ts : List Token} {ns : List Node} (h : Laid ts ns)
    (hstands : ∀ t ∈ ts, t.Stands whole) : ∀ n ∈ ns, n.All Node.Bare := by
  refine h.all (fun _ _ _ _ => rfl) (fun _ _ _ _ _ => rfl) (fun _ _ _ _ hn => by cases hn)
    (fun n _ hn => ?_) hstands
  cases n
  exact hn

end SamScript
