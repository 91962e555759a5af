/-
The leaves of a tree are its tokens. Read from left to right, with a string literal as
one leaf, they are the tokens of the program one by one, each at its place, but for two
things (`Fringe`): a minus sign where an operand has to begin is one leaf with the number
that it touches, and parentheses around an expression have no leaves of their own. What
has to begin is told by the token in front alone, since no statement begins with a sign
behind a brace: the expression that the brace ends would have gone on. The induction goes
over the grammar, one case for each way to build a node (`Spells.bears`).
-/
import SamScript.Proofs.Token.Tiling
import SamScript.Proofs.Tree.Shape
import SamScript.Proofs.Tree.Soundness

namespace SamScript

open SamScript.Parser SamScript.Scan

-- =================================================================== leaves

/-- A node without anything below it, whatever its role. -/
structure Leaf where
  kind : NodeKind
  isNamed : Bool
  extent : Extent
  deriving DecidableEq, Repr

namespace Node

mutual

/-- The leaves of a node from left to right; a string literal counts as one. -/
def leaves : Node → List Leaf
  | .mk kind isNamed _ extent children =>
    if children.isEmpty || (isNamed && kind = .string) then [⟨kind, isNamed, extent⟩]
    else leavesAll children

/-- The leaves of some nodes. -/
def leavesAll : List Node → List Leaf
  | [] => []
  | n :: rest => n.leaves ++ leavesAll rest

end

variable {n : Node} {ns ms : List Node} {kind : NodeKind}

theorem leavesAll_one (n : Node) : leavesAll [n] = n.leaves :=
  List.append_nil _

theorem leavesAll_append (ns ms : List Node) :
    leavesAll (ns ++ ms) = leavesAll ns ++ leavesAll ms := by
  induction ns with
  | nil => rfl
  | cons n ns ih => rw [List.cons_append, leavesAll, leavesAll, ih, List.append_assoc]

@[simp] theorem leaves_inField (field : Field) (n : Node) : (n.inField field).leaves = n.leaves := by
  cases n
  rfl

@[simp] theorem leaves_inOptional (field : Option Field) (n : Node) :
    (n.inOptional field).leaves = n.leaves := by
  cases field with
  | none => rfl
  | some field => exact leaves_inField field n

/-- The leaves of a node over some children are theirs. -/
theorem leavesAll_branch (hk : kind ≠ .string) (n : Node) (ns : List Node) :
    leavesAll [branch kind n ns] = leavesAll (n :: ns) := by
  rw [leavesAll_one, branch, leaves, if_neg]
  simp [hk]

theorem leaves_stringNode (t : Token) :
    (stringNode t).leaves = [⟨.string, true, t.span.extent⟩] := by
  rw [← extent_stringNode, stringNode_eq]
  rfl

end Node

/-- The leaf of a token. -/
def Token.leaf (t : Token) : Leaf :=
  match t.kind with
  | .identifier => ⟨.identifier, true, t.span.extent⟩
  | .number => ⟨.number, true, t.span.extent⟩
  | .string => ⟨.string, true, t.span.extent⟩
  | _ => ⟨.ofText t.lexeme, false, t.span.extent⟩

/-- The leaf of a sign and a number. -/
def Token.signedLeaf (m t : Token) : Leaf :=
  ⟨.number, true, Span.extent { m.span with stop := t.span.stop }⟩

open Node

-- =================================================================== fringe

/-- Whether a token of this kind, if there is one, is the last of an operand. -/
def endsOperand : Option TokenKind → Bool
  | none => false
  | some kind => kind ∈ [.number, .string, .identifier, .rparen, .rbracket, .rbrace]

/-- How leaves come from tokens, given the kind of the token in front of them. A minus
sign is a leaf of its own only behind an operand, and part of a number only where there
is none in front; parentheses without leaves are around the tokens of a complete
expression. -/
inductive Fringe (complete : List Leaf → Prop) : Option TokenKind → List Token → List Leaf → Prop
  | nil {before : Option TokenKind} : Fringe complete before [] []
  | token {before : Option TokenKind} {t : Token} {ts : List Token} {ls : List Leaf} :
      (t.kind = .minus → endsOperand before = true) → Fringe complete (some t.kind) ts ls →
      Fringe complete before (t :: ts) (t.leaf :: ls)
  | signed {before : Option TokenKind} {m t : Token} {ts : List Token} {ls : List Leaf} :
      endsOperand before = false → m.kind = .minus → t.kind = .number → touches m t →
      Fringe complete (some t.kind) ts ls →
      Fringe complete before (m :: t :: ts) (m.signedLeaf t :: ls)
  | group {before : Option TokenKind} {o c : Token} {ts us : List Token} {ls ms : List Leaf} :
      o.kind = .lparen → c.kind = .rparen → complete ls →
      Fringe complete (some o.kind) ts ls → Fringe complete (some c.kind) us ms →
      Fringe complete before (o :: (ts ++ c :: us)) (ls ++ ms)

/-- Whether some leaves are all those of one expression among some nodes or below. -/
def Complete (ns : List Node) (ls : List Leaf) : Prop :=
  ∃ n ∈ preorders ns, n.IsExpression ∧ n.leaves = ls

theorem Complete.widen {ns ms : List Node} {ls : List Leaf} (h : Complete ns ls)
    (hsub : ∀ n ∈ ns, n ∈ ms) : Complete ms ls := by
  obtain ⟨n, hn, hls⟩ := h
  obtain ⟨a, ha, hn⟩ := mem_preorders.1 hn
  exact ⟨n, mem_preorders.2 ⟨a, hsub a ha, hn⟩, hls⟩

/-- The kind of the token that stands behind some others. -/
def behind (before : Option TokenKind) (ts : List Token) : Option TokenKind :=
  (ts.getLast?.map Token.kind).or before

section

variable {before : Option TokenKind} {t : Token} {kind : TokenKind} {ts us : List Token}

theorem behind_cons (before : Option TokenKind) (t : Token) (ts : List Token) :
    behind before (t :: ts) = behind (some t.kind) ts := by
  unfold behind
  rw [List.getLast?_cons]
  cases ts.getLast? <;> rfl

theorem behind_append (before : Option TokenKind) (ts us : List Token) :
    behind before (ts ++ us) = behind (behind before ts) us := by
  unfold behind
  rw [List.getLast?_append]
  cases us.getLast? <;> rfl

/-- Whether an operand may begin with the first of some tokens: there is none in front,
or it is no sign. -/
def Fresh (before : Option TokenKind) (ts : List Token) : Prop :=
  endsOperand before = false ∨ NoOperator ts

theorem Fresh.front (h : Fresh before (ts ++ us)) : Fresh before ts :=
  h.imp_right NoOperator.front

theorem fresh_of_kind (ht : t.kind = kind) (hk : endsOperand (some kind) = false)
    (ts : List Token) : Fresh (some t.kind) ts :=
  .inl (ht ▸ hk)

/-- Behind a statement the next one may begin. -/
theorem fresh_of_parted (h : Parted ts us) (before : Option TokenKind) :
    Fresh (behind before ts) us := by
  refine h.imp_left fun ⟨t, ht, hk⟩ => ?_
  rw [behind, Option.mem_def.1 ht]
  exact congrArg (fun kind => endsOperand (some kind)) hk

end

namespace Fringe

variable {complete complete' : List Leaf → Prop} {before : Option TokenKind}
  {ts us : List Token} {ls ms : List Leaf}

theorem mono (h : Fringe complete before ts ls) (hc : ∀ ls, complete ls → complete' ls) :
    Fringe complete' before ts ls := by
  induction h with
  | nil => exact .nil
  | token ht _ ih => exact .token ht ih
  | signed hbefore hm ht htouch _ ih => exact .signed hbefore hm ht htouch ih
  | group ho hk hcomplete _ _ ihinner ihmore => exact .group ho hk (hc _ hcomplete) ihinner ihmore

theorem append (h : Fringe complete before ts ls)
    (h' : Fringe complete (behind before ts) us ms) :
    Fringe complete before (ts ++ us) (ls ++ ms) := by
  induction h with
  | nil => exact h'
  | token ht _ ih =>
    rw [behind_cons] at h'
    exact .token ht (ih h')
  | signed hbefore hm ht htouch _ ih =>
    rw [behind_cons, behind_cons] at h'
    exact .signed hbefore hm ht htouch (ih h')
  | group ho hc hcomplete hinner _ _ ih =>
    rw [behind_cons, behind_append, behind_cons] at h'
    rw [List.cons_append, List.append_assoc, List.append_assoc]
    exact .group ho hc hcomplete hinner (ih h')

end Fringe

-- ============================================================ ends of operands

/-- Whether some tokens end like an operand. -/
def EndsOperand (ts : List Token) : Prop :=
  ∃ t ∈ ts.getLast?, endsOperand (some t.kind) = true

section

variable {t : Token} {kind : TokenKind} {ts : List Token}

theorem endsOperand_of_kind (ht : t.kind = kind) (hk : endsOperand (some kind) = true) :
    EndsOperand [t] :=
  ⟨t, rfl, ht ▸ hk⟩

theorem EndsOperand.after (h : EndsOperand ts) (front : List Token) : EndsOperand (front ++ ts) := by
  obtain ⟨t, ht, hk⟩ := h
  refine ⟨t, ?_, hk⟩
  rw [List.getLast?_append, Option.mem_def.1 ht]
  rfl

theorem EndsOperand.behind (h : EndsOperand ts) (before : Option TokenKind) :
    endsOperand (behind before ts) = true := by
  obtain ⟨t, ht, hk⟩ := h
  rw [SamScript.behind, Option.mem_def.1 ht]
  exact hk

/-- How the tokens of a phrase end that an operand may end with. -/
def Phrase.Ends : Phrase → List Token → Prop
  | .expression, ts | .conditional, ts | .block, ts | .inner, ts => EndsOperand ts
  | .listed _ close, ts => endsOperand (some close) = true → EndsOperand ts
  | .alternative, ts => ts = [] ∨ EndsOperand ts
  | _, _ => True

end

theorem Spells.ends {p : Phrase} {ts : List Token} {ns : List Node} (h : Spells p ts ns) :
    p.Ends ts := by
  induction h with
  | number ht => exact endsOperand_of_kind ht rfl
  | negative _ ht => exact (endsOperand_of_kind ht rfl).after [_]
  | string ht => exact endsOperand_of_kind ht rfl
  | name ht => exact endsOperand_of_kind ht rfl
  | group _ hc => exact ((endsOperand_of_kind hc rfl).after _).after _
  | array _ _ ih => exact (ih rfl).after _
  | lambda _ _ _ _ ihbody => exact (ihbody.after _).after _
  | conditional _ ih => exact ih
  | call _ _ _ _ ihitems => exact ((ihitems rfl).after _).after _
  | access _ _ ht => exact ((endsOperand_of_kind ht rfl).after _).after _
  | binary _ _ _ _ ihright => exact (ihright.after _).after _
  | if_ _ _ _ _ _ _ _ ihblock ihalternative =>
    refine (((EndsOperand.after ?_ _).after _).after _).after _
    rcases ihalternative with rfl | ihalternative
    · rwa [List.append_nil]
    · exact ihalternative.after _
  | noElse => exact .inl rfl
  | elseIf _ _ ih => exact .inr (ih.after _)
  | elseBlock _ _ ih => exact .inr (ih.after _)
  | close ht => exact endsOperand_of_kind ht
  | last _ ht => exact fun hclose => (endsOperand_of_kind ht hclose).after _
  | item _ _ _ _ ihmore => exact fun hclose => ((ihmore hclose).after _).after _
  | block _ _ ih => exact ih.after _
  | brace ht => exact endsOperand_of_kind ht rfl
  | inner _ _ _ _ ihmore => exact ihmore.after _
  | _ => trivial

-- ============================================================= nodes

/-- Whether tokens and the leaves of some nodes are a fringe. -/
def Bears (before : Option TokenKind) (ts : List Token) (ns : List Node) : Prop :=
  Fringe (Complete ns) before ts (leavesAll ns)

namespace Bears

variable {before : Option TokenKind} {t m o c : Token} {kind : TokenKind} {ts us : List Token}
  {n : Node} {ns ms : List Node}

theorem nil : Bears before [] [] :=
  Fringe.nil

theorem append (h : Bears before ts ns) (h' : Bears (behind before ts) us ms) :
    Bears before (ts ++ us) (ns ++ ms) := by
  have hleft : Fringe (Complete (ns ++ ms)) before ts (leavesAll ns) :=
    h.mono fun _ hc => hc.widen fun _ hn => List.mem_append_left ms hn
  have hright : Fringe (Complete (ns ++ ms)) (behind before ts) us (leavesAll ms) :=
    h'.mono fun _ hc => hc.widen fun _ hn => List.mem_append_right ns hn
  rw [Bears, leavesAll_append]
  exact hleft.append hright

/-- A node over some children bears what they do. -/
theorem branch {nodeKind : NodeKind} (hk : nodeKind ≠ .string) (h : Bears before ts (n :: ns)) :
    Bears before ts [.branch nodeKind n ns] := by
  rw [Bears, leavesAll_branch hk]
  refine h.mono fun ls ⟨e, he, hls⟩ => ⟨e, ?_, hls⟩
  obtain ⟨c, hc, he⟩ := mem_preorders.1 he
  exact mem_preorders.2 ⟨_, List.mem_singleton_self _, mem_preorder_of_child hc he⟩

theorem inField (h : Bears before ts [n]) (field : Field) : Bears before ts [n.inField field] := by
  rw [Bears, leavesAll_one, leaves_inField, ← leavesAll_one]
  refine h.mono fun ls ⟨e, he, hexpression, hls⟩ => ?_
  obtain ⟨a, ha, he⟩ := mem_preorders.1 he
  rw [List.mem_singleton.1 ha] at he
  rcases mem_preorder_iff.1 he with rfl | ⟨c, hc, he⟩
  · refine ⟨_, mem_preorders.2 ⟨_, List.mem_singleton_self _, mem_preorder_self _⟩,
      hexpression.inField, ?_⟩
    rw [leaves_inField]
    exact hls
  · refine ⟨e, mem_preorders.2 ⟨_, List.mem_singleton_self _, mem_preorder_of_child ?_ he⟩,
      hexpression, hls⟩
    cases n
    exact hc

theorem inOptional (h : Bears before ts [n]) (field : Option Field) :
    Bears before ts [n.inOptional field] := by
  cases field with
  | none => exact h
  | some field => exact h.inField field

/-- A token that is a leaf of its own. -/
theorem token (hleaf : leavesAll ns = [t.leaf])
    (hminus : t.kind = .minus → endsOperand before = true) : Bears before [t] ns := by
  rw [Bears, hleaf]
  exact .token hminus .nil

/-- A keyword, an operator or a punctuation mark. -/
theorem anonymous (hword : t.kind ∉ [.identifier, .number, .string])
    (hminus : t.kind = .minus → endsOperand before = true) : Bears before [t] [.anonymous t] := by
  refine .token ?_ hminus
  unfold Token.leaf
  split <;> simp_all [leavesAll_one, Node.anonymous, leaves]

/-- The same for kinds that are no operators. -/
theorem mark (ht : t.kind = kind) (hk : kind ∉ [.identifier, .number, .string, .minus]) :
    Bears before [t] [.anonymous t] := by
  refine .anonymous (fun h => hk ?_) fun h => absurd ?_ hk
  · rw [ht] at h
    exact List.mem_append_left [.minus] h
  · rw [← ht, h]
    decide

/-- A token that is no mark. -/
theorem word (hleaf : leavesAll ns = [t.leaf]) (ht : t.kind = kind) (hk : kind ≠ .minus) :
    Bears before [t] ns :=
  .token hleaf fun h => absurd (ht.symm.trans h) hk

theorem name (ht : t.kind = .identifier) : Bears before [t] [.leaf .identifier t.span] := by
  refine .word ?_ ht (by decide)
  rw [Token.leaf, ht]
  rfl

theorem number (ht : t.kind = .number) : Bears before [t] [numberNode t.span] := by
  refine .word ?_ ht (by decide)
  rw [Token.leaf, ht]
  rfl

theorem string (ht : t.kind = .string) : Bears before [t] [stringNode t] := by
  refine .word ?_ ht (by decide)
  rw [leavesAll_one, leaves_stringNode, Token.leaf, ht]

/-- A sign and the number that it touches are one leaf where there is no operand in front. -/
theorem negative (hbefore : endsOperand before = false) (hm : m.kind = .minus)
    (ht : t.kind = .number) (htouch : touches m t) :
    Bears before [m, t] [numberNode { m.span with stop := t.span.stop }] :=
  .signed hbefore hm ht htouch .nil

/-- Parentheses around an expression leave its leaves as they are. -/
theorem group (ho : o.kind = .lparen) (hc : c.kind = .rparen) (hn : n.IsExpression)
    (h : Bears (some o.kind) ts [n]) : Bears before ([o] ++ (ts ++ [c])) [n] := by
  have hcomplete : Complete [n] (leavesAll [n]) :=
    ⟨n, mem_preorders.2 ⟨n, List.mem_singleton_self n, mem_preorder_self n⟩, hn,
      (leavesAll_one n).symm⟩
  rw [Bears, ← List.append_nil (leavesAll [n])]
  exact .group ho hc hcomplete h .nil

end Bears

/-- An operator is no word, and no operand ends with it. -/
theorem kind_of_precedence {kind : TokenKind} {p : Nat} (h : precedence? kind = some p) :
    kind ∉ [.identifier, .number, .string] ∧ endsOperand (some kind) = false := by
  cases kind <;> first
    | exact ⟨by decide, rfl⟩
    | cases h

/-- What has to stand in front of a phrase: an operand may begin where it may begin with
a sign. -/
def Phrase.Stands (before : Option TokenKind) : Phrase → List Token → Prop
  | .expression, ts | .inner, ts | .statement, ts | .statements, ts => Fresh before ts
  | .listed _ close, ts => close ∈ [.rparen, .rbracket] ∧ Fresh before ts
  | _, _ => True

/-- The tokens of every phrase bear its nodes. -/
theorem Spells.bears {p : Phrase} {ts : List Token} {ns : List Node} (h : Spells p ts ns) :
    ∀ before, p.Stands before ts → Bears before ts ns := by
  have hcloses : ∀ kind ∈ [TokenKind.rparen, .rbracket],
      kind ∉ [TokenKind.identifier, .number, .string, .minus] := by decide
  induction h with
  | number ht => exact fun _ _ => .number ht
  | negative hm ht htouch =>
    intro before hfresh
    rcases hfresh with hbefore | hnone
    · exact .negative hbefore hm ht htouch
    · have hsign := hnone _ rfl
      rw [hm] at hsign
      cases hsign
  | string ht => exact fun _ _ => (Bears.string ht).branch (by decide)
  | name ht => exact fun _ _ => .name ht
  | group ho hc hinner ih =>
    exact fun _ _ => .group ho hc hinner.gives_one (ih _ (fresh_of_kind ho rfl _))
  | array ho _ ih =>
    intro before _
    refine Bears.branch (by decide) ((Bears.mark ho (by decide)).append ?_)
    exact ih _ ⟨by decide, fresh_of_kind ho rfl _⟩
  | lambda ho _ _ ihhead ihbody =>
    intro before _
    refine Bears.branch (by decide) ((Bears.mark ho (by decide)).append ?_)
    exact (ihhead _ trivial).append ((ihbody _ trivial).inField _)
  | conditional _ ih => exact fun before _ => ih before trivial
  | call _ ho _ ihcallee ihitems =>
    intro before hfresh
    refine Bears.branch (by decide) (((ihcallee before hfresh.front).inField _).append ?_)
    exact (Bears.mark ho (by decide)).append (ihitems _ ⟨by decide, fresh_of_kind ho rfl _⟩)
  | access _ hdot ht ih =>
    intro before hfresh
    refine Bears.branch (by decide) (((ih before hfresh.front).inField _).append ?_)
    exact (Bears.mark hdot (by decide)).append ((Bears.name ht).inField _)
  | binary hleft hop _ ihleft ihright =>
    -- the operator may be a minus sign, but the left operand is in front of it
    intro before hfresh
    obtain ⟨hword, hright⟩ := kind_of_precedence hop
    refine Bears.branch (by decide) (((ihleft before hfresh.front).inField _).append ?_)
    refine (Bears.anonymous hword fun _ => hleft.ends.behind before).append ?_
    exact (ihright _ (.inl hright)).inField _
  | if_ hi ho _ hc _ _ ihcondition ihblock ihalternative =>
    intro before _
    refine Bears.branch (by decide) ((Bears.mark hi (by decide)).append ?_)
    refine (Bears.mark ho (by decide)).append ?_
    refine ((ihcondition _ (fresh_of_kind ho rfl _)).inField _).append ?_
    refine (Bears.mark hc (by decide)).append ?_
    exact ((ihblock _ trivial).inField _).append (ihalternative _ trivial)
  | noElse | noSemicolon | noInterfaces | noStatements => exact fun _ _ => .nil
  | elseIf he _ ih | elseBlock he _ ih =>
    exact fun _ _ => (Bears.mark he (by decide)).append ((ih _ trivial).inField _)
  | arrow hc ha => exact fun _ _ => (Bears.mark hc (by decide)).append (.mark ha (by decide))
  | parameter hc ht _ ih =>
    intro before _
    refine (Bears.mark hc (by decide)).append ?_
    exact ((Bears.name ht).inField _).append (ih _ trivial)
  | bare _ _ ih => exact fun before _ => ih before trivial
  | parameters ht _ ih => exact fun _ _ => ((Bears.name ht).inField _).append (ih _ trivial)
  | close ht => exact fun before ⟨hclose, _⟩ => .mark ht (hcloses _ hclose)
  | last _ ht ih =>
    rintro before ⟨hclose, hfresh⟩
    exact ((ih before hfresh.front).inOptional _).append (.mark ht (hcloses _ hclose))
  | item _ ht _ ihitem ihmore =>
    rintro before ⟨hclose, hfresh⟩
    refine ((ihitem before hfresh.front).inOptional _).append ?_
    exact (Bears.mark ht (by decide)).append (ihmore _ ⟨hclose, fresh_of_kind ht rfl _⟩)
  | block ho _ ih =>
    intro before _
    refine Bears.branch (by decide) ((Bears.mark ho (by decide)).append ?_)
    exact ih _ (fresh_of_kind ho rfl _)
  | brace ht => exact fun _ _ => .mark ht (by decide)
  | inner _ hparted _ ihfirst ihmore | statements _ hparted _ ihfirst ihmore =>
    -- behind a brace there is an operand, but then no sign begins the next statement
    intro before hfresh
    exact (ihfirst before hfresh.front).append (ihmore _ (fresh_of_parted hparted before))
  | semicolon ht => exact fun _ _ => .mark ht (by decide)
  | declaration hl _ _ ih ihending =>
    intro before _
    refine Bears.branch (by decide) ((Bears.mark hl (by decide)).append ?_)
    exact (ih _ trivial).append (ihending _ trivial)
  | return_ hr _ ih =>
    intro before _
    exact Bears.branch (by decide) ((Bears.mark hr (by decide)).append (ih _ trivial))
  | returnValue hr _ _ ih ihending =>
    intro before _
    refine Bears.branch (by decide) ((Bears.mark hr (by decide)).append ?_)
    exact ((ih _ (fresh_of_kind hr rfl _)).inField _).append (ihending _ trivial)
  | assignment ht ha _ _ ih ihending =>
    intro before _
    refine Bears.branch (by decide) (((Bears.name ht).inField _).append ?_)
    refine (Bears.mark ha (by decide)).append ?_
    exact ((ih _ (fresh_of_kind ha rfl _)).inField _).append (ihending _ trivial)
  | plain _ _ ih ihending =>
    intro before hfresh
    exact Bears.branch (by decide) ((ih before hfresh.front).append (ihending _ trivial))
  | variable_ ht => exact fun _ _ => ((Bears.name ht).inField _).branch (by decide)
  | variableValue ht ha _ ih =>
    intro before _
    refine Bears.branch (by decide) (((Bears.name ht).inField _).append ?_)
    exact (Bears.mark ha (by decide)).append ((ih _ (fresh_of_kind ha rfl _)).inField _)
  | declarator _ ih => exact fun before _ => ih before trivial
  | declarators _ hc _ ih ihmore =>
    intro before _
    exact (ih before trivial).append ((Bears.mark hc (by decide)).append (ihmore _ trivial))
  | interface_ hi hpath hload ht _ ih =>
    intro before _
    refine Bears.branch (by decide) ((Bears.mark hi (by decide)).append ?_)
    refine ((Bears.string hpath).inField _).append ?_
    refine (Bears.mark hload (by decide)).append ?_
    exact ((Bears.name ht).inField _).append (ih _ trivial)
  | interfaces _ _ ih ihmore =>
    exact fun before _ => (ih before trivial).append (ihmore _ trivial)

-- ============================================================== programs

theorem Bears.gathered {ts us : List Token} {ds ns : List Node} {before : Option TokenKind}
    (h : Bears before ts ds) (h' : Bears (behind before ts) us ns) :
    Bears before (ts ++ us) (gathered ds ++ ns) := by
  cases ds with
  | nil => exact h.append h'
  | cons d ds => exact (h.branch (by decide)).append h'

/-- The tokens of a program bear the nodes below its root. -/
theorem Parser.program_bears {list : TokenList} {root : Node} (h : program list = .ok root) :
    Bears none list.tokens root.children := by
  obtain ⟨ds, is, declared, inner, htokens, hds, hparted, his, rfl⟩ := program_sections h
  have hfresh : Fresh (behind none ds) is := by
    rcases hparted with rfl | hparted
    · exact .inl rfl
    · exact fresh_of_parted hparted none
  rw [htokens]
  exact (hds.bears none trivial).gathered (his.bears _ hfresh)

/-- The leaves of a parsed program are its tokens. Each token is a leaf, in its place
and in order, but for a sign, which is one leaf with its number, and for the parentheses
of groups, each pair around the tokens of one expression. The text behind the last token
is a gap. -/
theorem leaves_are_the_tokens (bounds : Bounds) (file : Option String) (source : String)
    (tree : Tree) (h : Tree.ofSource bounds file source = .ok tree) :
    ∃ list, tokenize file source = .ok list ∧
      Fringe (Complete tree.root.children) none list.tokens (leavesAll tree.root.children) ∧
      ∃ front gap, source.toList = front ++ gap ∧ LastGap gap ∧
        (list.tokens = [] → front = []) ∧
        ∀ t ∈ list.tokens.getLast?, t.span.stop.Behind front := by
  obtain ⟨-, list, htokens, hroot⟩ := Tree.ofSource_program h
  exact ⟨list, htokens, Parser.program_bears hroot, (tokenize_tiles htokens).ending⟩

/-- Groups in groups and in a call, a sign of its own and one of a number, a string
literal of three parts, and a comment at the end. -/
theorem leaves_are_the_tokens_grouped :
    let source := "x = ((-1) - (2 -3)); f((\"a\\nb\")) // end"
    ∃ tree list, Tree.ofSource {} none source = .ok tree ∧ tokenize none source = .ok list ∧
      list.tokens.length = 21 ∧
      (leavesAll tree.root.children).map (·.kind.text) =
        ["identifier", "=", "number", "-", "number", "-", "number", ";",
          "identifier", "(", "string", ")"] ∧
      Fringe (Complete tree.root.children) none list.tokens (leavesAll tree.root.children) := by
  intro source
  have hrun : (Tree.ofSource {} none source).toOption.any (fun tree =>
      (leavesAll tree.root.children).map (·.kind.text) =
        ["identifier", "=", "number", "-", "number", "-", "number", ";",
          "identifier", "(", "string", ")"]) = true := by
    decide +kernel
  have hcount : (tokenize none source).toOption.any (fun list => list.tokens.length = 21) = true := by
    decide +kernel
  obtain ⟨tree, htree, hkinds⟩ := exists_ok_of_any hrun
  obtain ⟨list, htokens, hfringe, -⟩ := leaves_are_the_tokens {} none source tree htree
  rw [htokens] at hcount
  exact ⟨tree, list, htree, htokens, of_decide_eq_true hcount, of_decide_eq_true hkinds, hfringe⟩

end SamScript
