/-
What nodes cover. A leaf below the root is a token, a sign with the number it
touches, a piece of a string literal or one of its quotes (`Node.LeafOf`), and
covers just that; a node with children reaches from the first of them to the last
(`Node.Reaching`); and rows and columns say the same as the bytes
(`Extent.Exact`). Only the root covers more than what is below it: the whole
text, from its first byte on.
-/
import SamScript.Proofs.Tree.WellFormed

namespace SamScript

open Node Utf8

-- ================================================================ extents

/-- The row and the column behind a front of a text: its line feeds, and the
characters since the last of them. -/
def Point.behind (before : List Char) : Point :=
  ⟨before.count '\n', (before.reverse.takeWhile (· ≠ '\n')).length⟩

/-- Whether both ends of a stretch are behind fronts of a text, by bytes and by
row and column. -/
def Extent.Exact (whole : List Char) (x : Extent) : Prop :=
  (∃ before, before <+: whole ∧ x.startByte = (encode before).length ∧
    x.startPoint = .behind before) ∧
  ∃ before, before <+: whole ∧ x.endByte = (encode before).length ∧ x.endPoint = .behind before

theorem Position.Within.exact {whole : List Char} {p : Position} (h : p.Within whole) :
    ∃ before, before <+: whole ∧ p.offset = (encode before).length ∧
      p.point = .behind before := by
  obtain ⟨before, hprefix, hbehind⟩ := h.behind
  refine ⟨before, hprefix, hbehind.offset, ?_⟩
  rw [Position.point, hbehind.line, hbehind.column]
  rfl

theorem Extent.Placed.exact {whole : List Char} {x : Extent} (h : x.Placed whole) :
    x.Exact whole := by
  obtain ⟨s, hstart, hstop, rfl⟩ := h
  exact ⟨hstart.exact, hstop.exact⟩

-- ========================================================= from first to last

/-- Whether a node with children reaches from the first of them to the last. -/
def Node.Reaching (n : Node) : Prop :=
  ∀ first ∈ n.children.head?, ∀ last ∈ n.children.getLast?,
    n.extent = first.extent.through last.extent

theorem Laid.reaching {whole : List Char} {ts : List Token} {ns : List Node} (h : Laid ts ns)
    (hstands : ∀ t ∈ ts, t.Stands whole) : ∀ n ∈ ns, n.All Node.Reaching := by
  refine h.all (fun _ _ _ _ hfirst => nomatch hfirst) (fun _ _ _ _ _ hfirst => nomatch hfirst)
    (fun kind n ns _ first hfirst last hlast => ?_) (fun n field hn => ?_) hstands
  · cases hfirst
    rw [children_branch, List.getLast?_cons] at hlast
    cases hlast
    rfl
  · cases n
    exact hn

/-- Where children follow each other, what is below a node that is not empty is
not empty either. -/
theorem Node.Ordered.nonempty {n : Node} (h : n.All Ordered)
    (hn : n.extent.startByte < n.extent.endByte) :
    n.All fun m => m.extent.startByte < m.extent.endByte := by
  induction n using children_induction with
  | step n ih =>
    refine all_iff.2 ⟨hn, fun c hc => ih c hc (h.child hc) ?_⟩
    exact (InOrder.of_mem h.self (List.mem_map_of_mem hc)).2.1

-- ================================================================= leaves

/-- What a leaf is made of, and its text. -/
inductive Node.LeafOf (tokens : List Token) (n : Node) : List Char → Prop
  | mark {t : Token} : t ∈ tokens → n.isNamed = false → n.extent = t.span.extent →
      LeafOf tokens n t.lexeme.toList
  | word {t : Token} : t ∈ tokens →
      t.kind = .identifier ∧ n.Is .identifier ∨ t.kind = .number ∧ n.Is .number →
      n.extent = t.span.extent → LeafOf tokens n t.lexeme.toList
  /-- A sign and the number right behind it. -/
  | signed {m t : Token} : [m, t] <:+: tokens → m.kind = .minus → t.kind = .number →
      m.span.stop.offset = t.span.start.offset → n.Is .number →
      n.extent = m.span.extent.through t.span.extent →
      LeafOf tokens n (m.lexeme.toList ++ t.lexeme.toList)
  | piece {t : Token} {part : StringPart} : t ∈ tokens → t.kind = .string → part ∈ t.parts →
      part.kind = .fragment ∧ n.Is .stringFragment ∨
        part.kind = .escape ∧ n.Is .escapeSequence →
      n.extent = part.span.extent → LeafOf tokens n part.text.toList
  | opening {t : Token} {quote : Char} {more : List Char} : t ∈ tokens → t.kind = .string →
      t.lexeme.toList = quote :: more → n.isNamed = false →
      n.extent = Span.extent ⟨t.span.start, t.span.start.after [quote], none⟩ →
      LeafOf tokens n [quote]
  | closing {t : Token} {quote : Char} {front : List Char} : t ∈ tokens → t.kind = .string →
      t.lexeme.toList = front ++ [quote] → n.isNamed = false →
      n.extent = Span.extent ⟨t.span.start.after front, t.span.stop, none⟩ →
      LeafOf tokens n [quote]

namespace Node.LeafOf

variable {whole text : List Char} {tokens : List Token} {n : Node}

theorem inField {field : Field} (h : n.LeafOf tokens text) :
    (n.inField field).LeafOf tokens text := by
  cases n
  cases h with
  | mark ht hn hx => exact .mark ht hn hx
  | word ht hn hx => exact .word ht hn hx
  | signed hmt hm ht htouch hn hx => exact .signed hmt hm ht htouch hn hx
  | piece ht hk hpart hn hx => exact .piece ht hk hpart hn hx
  | opening ht hk hlexeme hn hx => exact .opening ht hk hlexeme hn hx
  | closing ht hk hlexeme hn hx => exact .closing ht hk hlexeme hn hx

/-- A leaf covers its text. -/
theorem covers (h : n.LeafOf tokens text) (hstands : ∀ t ∈ tokens, t.Stands whole) :
    ∃ s : Span, s.Covers whole text ∧ n.extent = s.extent := by
  cases h with
  | mark ht _ hx => exact ⟨_, (hstands _ ht).covers, hx⟩
  | word ht _ hx => exact ⟨_, (hstands _ ht).covers, hx⟩
  | @signed m t hmt _ _ htouch _ hx =>
    have hm := hstands m (hmt.subset List.mem_cons_self)
    have ht := hstands t (hmt.subset (List.mem_cons_of_mem _ List.mem_cons_self))
    exact ⟨_, hm.covers.join ht.covers htouch, hx⟩
  | @piece t part ht hk hpart _ hx =>
    obtain ⟨quote, hliteral⟩ := (hstands t ht).literal hk
    exact ⟨_, hliteral.parts_covers part hpart, hx⟩
  | @opening t quote more ht _ hlexeme _ hx =>
    have hcovers := (hstands t ht).covers
    rw [hlexeme, ← List.singleton_append] at hcovers
    exact ⟨_, Span.Covers.front hcovers, hx⟩
  | @closing t quote front ht _ hlexeme _ hx =>
    have hcovers := (hstands t ht).covers
    rw [hlexeme] at hcovers
    exact ⟨_, Span.Covers.back hcovers, hx⟩

theorem bytes_eq (h : n.LeafOf tokens text) (hstands : ∀ t ∈ tokens, t.Stands whole) :
    n.bytes (encode whole) = encode text := by
  obtain ⟨s, hs, hx⟩ := h.covers hstands
  rw [bytes, hx]
  exact hs.slice_eq

end Node.LeafOf

namespace Parser

/-- A piece of a string literal is a leaf of its own kind. -/
theorem pieceNode_is (part : StringPart) :
    part.kind = .fragment ∧ (pieceNode part).Is .stringFragment ∨
      part.kind = .escape ∧ (pieceNode part).Is .escapeSequence := by
  unfold pieceNode
  cases part.kind with
  | fragment => exact .inl ⟨rfl, rfl, rfl⟩
  | escape => exact .inr ⟨rfl, rfl, rfl⟩

theorem children_pieceNode (part : StringPart) : (pieceNode part).children = [] := by
  obtain ⟨kind, hkind⟩ := pieceNode_eq part
  rw [hkind]
  rfl

end Parser

open SamScript.Parser in
/-- The leaves of a string literal are its quotes and its pieces. -/
theorem stringNode_leaves {whole : List Char} {tokens : List Token} {t : Token} (ht : t ∈ tokens)
    (hk : t.kind = .string) (hstands : t.Stands whole) :
    (stringNode t).All fun m => m.children = [] → ∃ text, m.LeafOf tokens text := by
  obtain ⟨quote, hliteral⟩ := hstands.literal hk
  refine all_iff.2 ⟨fun hnone => ?_, fun c hc => ?_⟩
  · cases hnone
  · rcases mem_children_stringNode.1 hc with rfl | ⟨part, hpart, rfl⟩ | rfl
    · rw [openingQuote_eq hliteral]
      exact all_of_childless rfl fun _ => ⟨_, .opening ht hk hliteral.lexeme_eq rfl rfl⟩
    · exact all_of_childless (children_pieceNode part) fun _ =>
        ⟨_, .piece ht hk hpart (pieceNode_is part) (extent_pieceNode part)⟩
    · rw [closingQuote_eq hstands hliteral]
      exact all_of_childless rfl fun _ => ⟨_, .closing ht hk hliteral.lexeme_eq rfl rfl⟩

/-- Every leaf over some tokens of a text is one of them, a part of one, or a
signed number of two. -/
theorem Laid.leaves {whole : List Char} {tokens ts : List Token} {ns : List Node} (h : Laid ts ns)
    (hts : ts <:+: tokens) (hstands : ∀ t ∈ tokens, t.Stands whole) :
    ∀ n ∈ ns, n.All fun m => m.children = [] → ∃ text, m.LeafOf tokens text := by
  have hone {n : Node} {text : List Char} (hn : n.children = []) (h : n.LeafOf tokens text) :
      ∀ m ∈ [n], m.All fun m => m.children = [] → ∃ text, m.LeafOf tokens text := by
    intro m hm
    rw [List.mem_singleton.1 hm]
    exact all_of_childless hn fun _ => ⟨text, h⟩
  induction h with
  | nil => exact fun n hn => absurd hn List.not_mem_nil
  | mark t => exact hone rfl (.mark (hts.subset List.mem_cons_self) rfl rfl)
  | @name t hk =>
    exact hone rfl (.word (hts.subset List.mem_cons_self) (.inl ⟨hk, rfl, rfl⟩) rfl)
  | @number t hk =>
    exact hone rfl (.word (hts.subset List.mem_cons_self) (.inr ⟨hk, rfl, rfl⟩) rfl)
  | negative hm ht htouch =>
    exact hone rfl (.signed hts hm ht (of_decide_eq_true htouch) ⟨rfl, rfl⟩ rfl)
  | @string t hk =>
    have ht := hts.subset List.mem_cons_self
    exact List.forall_mem_singleton.2 (stringNode_leaves ht hk (hstands t ht))
  | @append ts us _ _ _ _ ihts ihus =>
    refine List.forall_mem_append.2 ⟨ihts ?_, ihus ?_⟩
    · exact (List.prefix_append ts us).isInfix.trans hts
    · exact (List.suffix_append ts us).isInfix.trans hts
  | branch kind _ ih =>
    exact List.forall_mem_singleton.2 (all_iff.2 ⟨fun hnone => (nomatch hnone), ih hts⟩)
  | @inField ts n field _ ih =>
    have hn := ih hts n List.mem_cons_self
    refine List.forall_mem_singleton.2 (hn.inField fun hnone => ?_)
    obtain ⟨text, htext⟩ := hn.self (by cases n; exact hnone)
    exact ⟨text, htext.inField⟩
  | @group ts ns o c _ ih =>
    refine ih (List.IsInfix.trans ⟨[o], [c], ?_⟩ hts)
    simp

-- ================================================================= trees

/-- The ranges of a parsed tree are exact. The root covers the whole text. The
children of every node follow each other inside it, and both its ends say the same
by bytes and by row and column. Every node below the root covers something; if it
has children it reaches from the first of them to the last, and if it has none it
covers just the text of a token, of a part of one, or of a signed number, which is
also what it is called if it is a mark. -/
theorem tree_ranges_are_exact (bounds : Bounds) (file : Option String) (source : String)
    (tree : Tree) (h : Tree.ofSource bounds file source = .ok tree) :
    ∃ list, tokenize file source = .ok list ∧ tree.source = encode source.toList ∧
      (tree.root.extent.startByte = 0 ∧
        tree.root.extent.endByte = (encode source.toList).length) ∧
      (∀ n ∈ tree.root.preorder, n.Ordered ∧ n.extent.Exact source.toList) ∧
      ∀ child ∈ tree.root.children, ∀ n ∈ child.preorder,
        n.extent.startByte < n.extent.endByte ∧ n.Reaching ∧
        (n.children = [] → ∃ text, n.LeafOf list.tokens text ∧
          n.bytes tree.source = encode text ∧ (n.isNamed = false → n.kind.text.toList = text)) := by
  obtain ⟨hsource, list, htokens, ds, is, declared, inner, hlist, hd, hi, hroot⟩ :=
    Tree.ofSource_spells h
  obtain ⟨-, hstands, hstop⟩ := tokenize_places htokens
  have hwell := Tree.ofSource_wellFormed h
  have hlaid : Laid list.tokens (gathered declared ++ inner) := by
    rw [hlist]
    exact (laid_gathered hd.laid).append hi.laid
  have hchildren : tree.root.children = gathered declared ++ inner := by
    rw [hroot]
    rfl
  refine ⟨list, htokens, hsource, ⟨?_, ?_⟩, fun n hn => ?_, fun child hchild n hn => ?_⟩
  · rw [hroot]
    rfl
  · rw [hroot]
    show list.stop.stop.offset = _
    rw [hstop, (Position.behind_after source.toList).offset]
  · exact ⟨hwell.ordered n hn, (Tree.ofSource_placed h n hn).exact⟩
  · have hordered := hwell.ordered.child hchild
    have hwide := (InOrder.of_mem hwell.ordered.self (List.mem_map_of_mem hchild)).2.1
    have hmem : child ∈ gathered declared ++ inner := hchildren ▸ hchild
    refine ⟨Ordered.nonempty hordered hwide n hn, hlaid.reaching hstands child hmem n hn,
      fun hnone => ?_⟩
    obtain ⟨text, hleaf⟩ := hlaid.leaves List.infix_rfl hstands child hmem n hn hnone
    have hbytes : n.bytes tree.source = encode text := by
      rw [hsource]
      exact hleaf.bytes_eq hstands
    refine ⟨text, hleaf, hbytes, fun hmark => eq_of_encode ?_⟩
    rw [← hbytes]
    exact (hwell.marked.child hchild n hn hmark).symm

/-- A group, whose parentheses leave no node, around a signed number on one line,
and a string literal with a character of two bytes on the next. -/
theorem tree_ranges_are_exact_signed :
    let source := "let x = (-1);\nf(\"é\");"
    ∃ tree, Tree.ofSource {} none source = .ok tree ∧ tree.root.extent.endByte = 22 ∧
      (∃ n ∈ tree.root.preorder, n.Is .number ∧ n.bytes tree.source = encode ['-', '1']) ∧
      (∃ n ∈ tree.root.preorder, n.Is .string ∧ n.extent.endPoint = ⟨1, 5⟩) ∧
      ∀ child ∈ tree.root.children, ∀ n ∈ child.preorder,
        n.extent.startByte < n.extent.endByte ∧ n.Reaching := by
  intro source
  have hrun : (Tree.ofSource {} none source).toOption.any (fun tree =>
      tree.root.extent.endByte = 22 &&
      (tree.root.preorder.any fun n =>
        (n.isNamed && n.kind = .number) && n.bytes tree.source = encode ['-', '1']) &&
      tree.root.preorder.any fun n =>
        (n.isNamed && n.kind = .string) && n.extent.endPoint = ⟨1, 5⟩) = true := by
    decide +kernel
  rcases htree : Tree.ofSource {} none source with e | tree
  · rw [htree] at hrun
    cases hrun
  · rw [htree] at hrun
    simp only [Except.toOption, Option.any_some, Bool.and_eq_true, List.any_eq_true,
      decide_eq_true_eq] at hrun
    obtain ⟨list, -, -, -, -, hbelow⟩ := tree_ranges_are_exact {} none source tree htree
    obtain ⟨⟨hend, hsigned⟩, hliteral⟩ := hrun
    exact ⟨tree, rfl, hend, hsigned, hliteral, fun child hchild n hn =>
      ⟨(hbelow child hchild n hn).1, (hbelow child hchild n hn).2.1⟩⟩

end SamScript
