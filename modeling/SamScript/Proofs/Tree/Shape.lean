/-
What parsed trees look like to the evaluator. `Shaped` says of a node, by its
kind, which children it has in which roles and of which kinds; every node of
a phrase is shaped (`Spells.shaped`). The evaluator asks for nothing more,
so in a parsed tree it finds whatever it asks for.

Punctuation is left out: the keyword of an interface declaration is called
`interface` just like the declaration, but it is no part of the structure.
-/
import SamScript.Proofs.Tree.Layout
import SamScript.Value.Operator

namespace SamScript

-- ========================================================= building blocks

namespace Node

variable {n : Node} {ns : List Node} {kind : NodeKind} {field : Field}

@[simp] theorem kind_inField (f : Field) (n : Node) : (n.inField f).kind = n.kind := by
  cases n; rfl

@[simp] theorem isNamed_inField (f : Field) (n : Node) : (n.inField f).isNamed = n.isNamed := by
  cases n; rfl

@[simp] theorem field_inField (f : Field) (n : Node) : (n.inField f).field = some f := by
  cases n; rfl

@[simp] theorem field_anonymous (t : Token) : (anonymous t).field = none := rfl

@[simp] theorem children_branch (kind : NodeKind) (n : Node) (ns : List Node) :
    (branch kind n ns).children = n :: ns := rfl

/-- Whether a node is part of the structure and of a kind. -/
def Is (kind : NodeKind) (n : Node) : Prop :=
  n.isNamed = true ∧ n.kind = kind

/-- Whether a node is a punctuation mark, a keyword or an operator. -/
def IsMark (n : Node) : Prop :=
  n.isNamed = false ∧ n.field = none

end Node

/-- The kinds of expressions. -/
def NodeKind.isExpression : NodeKind → Bool
  | .literal | .identifier | .lambdaExpression | .binaryExpression | .nestedIdentifier
  | .arrayExpression | .ifExpression | .callExpression => true
  | _ => false

/-- The kinds of statements. -/
def NodeKind.isStatement : NodeKind → Bool
  | .expressionStatement | .variableDeclaration | .assignment | .returnStatement => true
  | _ => false

namespace Node

def IsExpression (n : Node) : Prop :=
  n.isNamed = true ∧ n.kind.isExpression = true

def IsStatement (n : Node) : Prop :=
  n.isNamed = true ∧ n.kind.isStatement = true

/-- The kinds of expressions one by one. -/
theorem IsExpression.cases {n : Node} (h : n.IsExpression) :
    n.Is .literal ∨ n.Is .identifier ∨ n.Is .lambdaExpression ∨ n.Is .binaryExpression ∨
      n.Is .nestedIdentifier ∨ n.Is .arrayExpression ∨ n.Is .ifExpression ∨
      n.Is .callExpression := by
  obtain ⟨hn, hk⟩ := h
  unfold Is
  unfold NodeKind.isExpression at hk
  split at hk <;> simp_all

/-- The kinds of statements one by one. -/
theorem IsStatement.cases {n : Node} (h : n.IsStatement) :
    n.Is .expressionStatement ∨ n.Is .variableDeclaration ∨ n.Is .assignment ∨
      n.Is .returnStatement := by
  obtain ⟨hn, hk⟩ := h
  unfold Is
  unfold NodeKind.isStatement at hk
  split at hk <;> simp_all

/-- Whether something holds of the first child in a role, and there is one. -/
def Has (n : Node) (field : Field) (p : Node → Prop) : Prop :=
  ∃ c, n.child? field = some c ∧ p c

/-- Whether something holds of the first child in a role, if there is one. -/
def MayHave (n : Node) (field : Field) (p : Node → Prop) : Prop :=
  ∀ c, n.child? field = some c → p c

/-- Whether the second child is an operator. -/
def HasOperator (n : Node) : Prop :=
  ∃ op, n.children[1]? = some op ∧ op.isNamed = false ∧ (Operator.ofText? op.kind.text).isSome

/-- What a node that is part of the structure has below it. -/
def Shape (n : Node) : NodeKind → Prop
  | .sourceFile => ∀ first rest, n.named = first :: rest →
    (first.Is .interfaces ∨ first.IsStatement) ∧ ∀ c ∈ rest, c.IsStatement
  | .interfaces => ∀ c ∈ n.named, c.Is .interface_
  | .interface_ => n.Has .path (·.Is .string) ∧ n.Has .module_ (·.Is .identifier)
  | .literal => ∃ inner rest, n.named = inner :: rest ∧ (inner.Is .number ∨ inner.Is .string)
  | .string => ∀ c ∈ n.named, c.Is .stringFragment ∨ c.Is .escapeSequence
  | .lambdaExpression => n.Has .body (·.Is .statementBlock) ∧
    ∀ c ∈ n.inRole .parameters, c.Is .identifier
  | .binaryExpression => n.Has .left IsExpression ∧ n.Has .right IsExpression ∧ n.HasOperator
  | .nestedIdentifier => n.Has .parent IsExpression ∧ n.Has .name (·.Is .identifier)
  | .arrayExpression => ∀ c ∈ n.named, c.IsExpression
  | .ifExpression => n.Has .condition IsExpression ∧ n.Has .consequence (·.Is .statementBlock) ∧
    n.MayHave .else_ fun c => c.Is .ifExpression ∨ c.Is .statementBlock
  | .callExpression => n.Has .function IsExpression ∧
    ∀ c ∈ n.inRole .arguments, c.IsExpression
  | .statementBlock => 2 ≤ n.children.length ∧ ∀ c ∈ n.named, c.IsStatement
  | .expressionStatement => ∃ inner rest, n.named = inner :: rest ∧ inner.IsExpression
  | .variableDeclaration => ∀ c ∈ n.named, c.Is .variableDeclarator
  | .variableDeclarator => n.Has .variable_ (·.Is .identifier) ∧ n.MayHave .value IsExpression
  | .assignment => n.Has .lhs (·.Is .identifier) ∧ n.Has .rhs IsExpression
  | .returnStatement => n.MayHave .value IsExpression
  | _ => True

/-- Whether a node, if it is part of the structure, has the shape of its
kind. -/
def Shaped (n : Node) : Prop :=
  n.isNamed = true → n.Shape n.kind

theorem shaped_of_unnamed {n : Node} (h : n.isNamed = false) : n.Shaped := by
  intro hn
  rw [h] at hn
  cases hn

end Node

-- ==================================================== what phrases consist of

open Node

/-- What the nodes of a phrase are. -/
def Phrase.Gives : Phrase → Node → Prop
  | .expression, n => n.IsExpression
  | .conditional, n => n.Is .ifExpression
  | .alternative, n => n.IsMark ∨
    n.field = some .else_ ∧ (n.Is .ifExpression ∨ n.Is .statementBlock)
  | .head, n | .tail, n => n.IsMark ∨ n.field = some .parameters ∧ n.Is .identifier
  | .listed _ _, n => n.IsMark ∨ n.IsExpression
  | .block, n => n.Is .statementBlock
  | .inner, n => n.IsMark ∨ n.IsStatement
  | .statement, n | .statements, n => n.IsStatement
  | .ending, n => n.IsMark
  | .declarators, n => n.IsMark ∨ n.Is .variableDeclarator
  | .declarator, n => n.Is .variableDeclarator
  | .interface_, n | .interfaces, n => n.Is .interface_

theorem Node.Is.inField {n : Node} {kind : NodeKind} {field : Field} (h : n.Is kind) :
    (n.inField field).Is kind := by
  rw [Is, isNamed_inField, kind_inField]
  exact h

theorem Node.IsExpression.inField {n : Node} {field : Field} (h : n.IsExpression) :
    (n.inField field).IsExpression := by
  rw [IsExpression, isNamed_inField, kind_inField]
  exact h

theorem isExpression_inOptional {n : Node} {field : Option Field} (h : n.IsExpression) :
    (n.inOptional field).IsExpression := by
  cases field with
  | none => exact h
  | some field => exact h.inField

theorem Spells.gives {p : Phrase} {ts : List Token} {ns : List Node} (h : Spells p ts ns) :
    ∀ n ∈ ns, p.Gives n := by
  have hmark (t : Token) : (anonymous t).IsMark := ⟨rfl, rfl⟩
  induction h with
  | number _ | negative _ _ _ | string _ | name _ | array _ _ | lambda _ _ _ | call _ _ _
  | access _ _ _ | binary _ _ _ | if_ _ _ _ _ _ _ | block _ _ | declaration _ _ _ | return_ _ _
  | returnValue _ _ _ | assignment _ _ _ _ | plain _ _ | variable_ _ | variableValue _ _ _
  | interface_ _ _ _ _ _ =>
    intro n hn
    rw [List.mem_singleton.1 hn]
    exact ⟨rfl, rfl⟩
  | group _ _ _ ih => exact ih
  | conditional _ ih =>
    intro n hn
    obtain ⟨hn, hk⟩ := ih n hn
    exact ⟨hn, by rw [hk]; rfl⟩
  | noElse | noSemicolon | noInterfaces | noStatements =>
    exact fun n hn => absurd hn List.not_mem_nil
  | elseIf _ _ ih =>
    rw [List.forall_mem_singleton] at ih
    refine List.forall_mem_cons.2 ⟨.inl (hmark _), List.forall_mem_singleton.2 ?_⟩
    exact .inr ⟨field_inField _ _, .inl ih.inField⟩
  | elseBlock _ _ ih =>
    rw [List.forall_mem_singleton] at ih
    refine List.forall_mem_cons.2 ⟨.inl (hmark _), List.forall_mem_singleton.2 ?_⟩
    exact .inr ⟨field_inField _ _, .inr ih.inField⟩
  | arrow _ _ =>
    exact List.forall_mem_cons.2 ⟨.inl (hmark _), List.forall_mem_singleton.2 (.inl (hmark _))⟩
  | parameter _ _ _ ih =>
    exact List.forall_mem_cons.2 ⟨.inl (hmark _),
      List.forall_mem_cons.2 ⟨.inr ⟨rfl, rfl, rfl⟩, ih⟩⟩
  | bare _ _ ih => exact ih
  | parameters _ _ ih => exact List.forall_mem_cons.2 ⟨.inr ⟨rfl, rfl, rfl⟩, ih⟩
  | close _ => exact List.forall_mem_singleton.2 (.inl (hmark _))
  | last _ _ ih =>
    rw [List.forall_mem_singleton] at ih
    exact List.forall_mem_cons.2 ⟨.inr (isExpression_inOptional ih),
      List.forall_mem_singleton.2 (.inl (hmark _))⟩
  | item _ _ _ ihitem ihmore =>
    rw [List.forall_mem_singleton] at ihitem
    exact List.forall_mem_cons.2 ⟨.inr (isExpression_inOptional ihitem),
      List.forall_mem_cons.2 ⟨.inl (hmark _), ihmore⟩⟩
  | brace _ => exact List.forall_mem_singleton.2 (.inl (hmark _))
  | inner _ _ _ ihfirst ihmore =>
    rw [List.forall_mem_singleton] at ihfirst
    exact List.forall_mem_cons.2 ⟨.inr ihfirst, ihmore⟩
  | semicolon _ => exact List.forall_mem_singleton.2 (hmark _)
  | declarator _ ih =>
    rw [List.forall_mem_singleton] at ih
    exact List.forall_mem_singleton.2 (.inr ih)
  | declarators _ _ _ ih ihmore =>
    rw [List.forall_mem_singleton] at ih
    exact List.forall_mem_cons.2 ⟨.inr ih, List.forall_mem_cons.2 ⟨.inl (hmark _), ihmore⟩⟩
  | interfaces _ _ ih ihmore =>
    rw [List.forall_mem_singleton] at ih
    exact List.forall_mem_cons.2 ⟨ih, ihmore⟩
  | statements _ _ _ ih ihmore =>
    rw [List.forall_mem_singleton] at ih
    exact List.forall_mem_cons.2 ⟨ih, ihmore⟩

/-- The one node of a phrase that has one. -/
theorem Spells.gives_one {p : Phrase} {ts : List Token} {n : Node} (h : Spells p ts [n]) :
    p.Gives n :=
  h.gives n List.mem_cons_self

/-- The last node of a block is its closing brace. -/
theorem Spells.inner_ne_nil {ts : List Token} {ns : List Node} (h : Spells .inner ts ns) :
    ns ≠ [] := by
  cases h with
  | brace _ => exact List.cons_ne_nil _ _
  | inner _ _ _ => exact List.cons_ne_nil _ _

-- ======================================================= shapes of nodes

namespace Node

variable {n : Node} {ns : List Node} {P : Node → Prop} {field : Field}

theorem named_of_marks (h : ∀ c ∈ n.children, c.IsMark ∨ P c) : ∀ c ∈ n.named, P c := by
  intro c hc
  obtain ⟨hmem, hnamed⟩ := List.mem_filter.1 hc
  rcases h c hmem with hmark | hp
  · rw [hmark.1] at hnamed
    cases hnamed
  · exact hp

theorem inRole_of_marks (h : ∀ c ∈ n.children, c.field ≠ some field ∨ P c) :
    ∀ c ∈ n.inRole field, P c := by
  intro c hc
  obtain ⟨hmem, hfield⟩ := List.mem_filter.1 hc
  rcases h c hmem with hne | hp
  · exact absurd (of_decide_eq_true hfield) hne
  · exact hp

theorem mayHave_of_children (h : ∀ c ∈ n.children, c.field ≠ some field ∨ P c) :
    n.MayHave field P := by
  intro c hc
  rcases h c (mem_children_of_child? hc) with hne | hp
  · have hfield := List.find?_some hc
    exact absurd (of_decide_eq_true hfield) hne
  · exact hp

/-- The first child in a role, behind others in none. -/
theorem has_of_append (before rest : List Node) {c : Node} (hn : n.children = before ++ c :: rest)
    (hbefore : ∀ b ∈ before, b.field ≠ some field) (hc : c.field = some field) (hp : P c) :
    n.Has field P := by
  refine ⟨c, ?_, hp⟩
  have hnone : before.find? (fun c => c.field = some field) = none :=
    List.find?_eq_none.2 fun b hb => by
      rw [decide_eq_true_eq]
      exact hbefore b hb
  unfold child?
  rw [hn, List.find?_append, hnone, Option.none_or, List.find?_cons, hc]
  simp

theorem IsMark.ne {c : Node} (h : c.IsMark) : c.field ≠ some field := by
  rw [h.2]
  exact Option.some_ne_none _ |>.symm

theorem Shaped.inField (h : n.Shaped) : (n.inField field).Shaped := by
  cases n
  exact h

end Node

theorem isMark_anonymous (t : Token) : (anonymous t).IsMark := ⟨rfl, rfl⟩

theorem shape_lambda {o : Token} {head : List Node} {body : Node}
    (hhead : ∀ c ∈ head, c.IsMark ∨ c.field = some .parameters ∧ c.Is .identifier)
    (hbody : body.Is .statementBlock) :
    (branch .lambdaExpression (anonymous o) (head ++ [body.inField .body])).Shape
      .lambdaExpression := by
  refine ⟨has_of_append (anonymous o :: head) [] (by simp) ?_
    (field_inField _ _) hbody.inField, inRole_of_marks ?_⟩
  · refine List.forall_mem_cons.2 ⟨(isMark_anonymous o).ne, fun c hc => ?_⟩
    rcases hhead c hc with hmark | ⟨hfield, -⟩
    · exact hmark.ne
    · rw [hfield]
      decide
  · refine List.forall_mem_cons.2 ⟨.inl (isMark_anonymous o).ne, ?_⟩
    refine List.forall_mem_append.2 ⟨fun c hc => ?_, List.forall_mem_singleton.2 (.inl ?_)⟩
    · rcases hhead c hc with hmark | ⟨-, hc⟩
      · exact .inl hmark.ne
      · exact .inr hc
    · rw [field_inField]
      decide

theorem shape_binary {left right : Node} {op : Token} (hleft : left.IsExpression)
    (hright : right.IsExpression) (hop : (Operator.ofText? op.lexeme).isSome) :
    (branch .binaryExpression (left.inField .left)
      [.anonymous op, right.inField .right]).Shape .binaryExpression := by
  refine ⟨has_of_append [] _ rfl (by simp) (field_inField _ _) hleft.inField,
    has_of_append [left.inField .left, .anonymous op] _ rfl ?_ (field_inField _ _)
      hright.inField, ⟨_, rfl, rfl, ?_⟩⟩
  · simp
  · show (Operator.ofText? (NodeKind.ofText op.lexeme).text).isSome
    rw [NodeKind.text_ofText]
    exact hop

theorem shape_access {parent : Node} {dot t : Token} (hparent : parent.IsExpression) :
    (branch .nestedIdentifier (parent.inField .parent)
      [.anonymous dot, (Node.leaf .identifier t.span).inField .name]).Shape .nestedIdentifier := by
  refine ⟨has_of_append [] _ rfl (by simp) (field_inField _ _) hparent.inField, ?_⟩
  exact has_of_append [parent.inField .parent, .anonymous dot] _ rfl (by simp)
    (field_inField _ _) ⟨rfl, rfl⟩

theorem shape_call {callee : Node} {o : Token} {items : List Node} (hcallee : callee.IsExpression)
    (hitems : ∀ c ∈ items, c.IsMark ∨ c.IsExpression) :
    (branch .callExpression (callee.inField .function) (.anonymous o :: items)).Shape
      .callExpression := by
  refine ⟨has_of_append [] _ rfl (by simp) (field_inField _ _) hcallee.inField, ?_⟩
  refine inRole_of_marks (List.forall_mem_cons.2 ⟨.inl ?_, ?_⟩)
  · rw [field_inField]
    decide
  · refine List.forall_mem_cons.2 ⟨.inl (isMark_anonymous o).ne, fun c hc => ?_⟩
    exact (hitems c hc).imp (fun hmark => hmark.ne) id

theorem shape_if {i o c : Token} {condition consequence : Node} {alternative : List Node}
    (hcondition : condition.IsExpression) (hconsequence : consequence.Is .statementBlock)
    (halternative : ∀ c ∈ alternative, c.IsMark ∨
      c.field = some .else_ ∧ (c.Is .ifExpression ∨ c.Is .statementBlock)) :
    (branch .ifExpression (.anonymous i) ([.anonymous o, condition.inField .condition,
      .anonymous c, consequence.inField .consequence] ++ alternative)).Shape .ifExpression := by
  refine ⟨has_of_append [.anonymous i, .anonymous o] _ rfl (by simp) (field_inField _ _)
      hcondition.inField,
    has_of_append [.anonymous i, .anonymous o, condition.inField .condition,
      .anonymous c] _ rfl (by simp) (field_inField _ _) hconsequence.inField,
    mayHave_of_children ?_⟩
  have hothers : ∀ b ∈ [anonymous i, .anonymous o, condition.inField .condition,
      .anonymous c, consequence.inField .consequence], b.field ≠ some .else_ := by
    simp
  intro b hb
  rcases List.mem_append.1 (show b ∈ [anonymous i, .anonymous o, condition.inField .condition,
      .anonymous c, consequence.inField .consequence] ++ alternative from hb) with hb | hb
  · exact .inl (hothers b hb)
  · exact (halternative b hb).imp (fun hmark => hmark.ne) And.right

theorem shape_block {o : Token} {nodes : List Node} (hne : nodes ≠ [])
    (hnodes : ∀ c ∈ nodes, c.IsMark ∨ c.IsStatement) :
    (branch .statementBlock (.anonymous o) nodes).Shape .statementBlock := by
  have := List.length_pos_iff.2 hne
  refine ⟨?_, named_of_marks (List.forall_mem_cons.2 ⟨.inl (isMark_anonymous o), hnodes⟩)⟩
  rw [children_branch, List.length_cons]
  omega

theorem shape_return {r : Token} {values ending : List Node}
    (hvalues : ∀ c ∈ values, c.IsExpression) (hending : ∀ c ∈ ending, c.IsMark) :
    (branch .returnStatement (.anonymous r) (values ++ ending)).Shape .returnStatement := by
  refine mayHave_of_children (List.forall_mem_cons.2 ⟨.inl (isMark_anonymous r).ne, ?_⟩)
  exact List.forall_mem_append.2 ⟨fun c hc => .inr (hvalues c hc),
    fun c hc => .inl (hending c hc).ne⟩

theorem shape_assignment {t a : Token} {value : Node} {ending : List Node}
    (hvalue : value.IsExpression) :
    (branch .assignment ((Node.leaf .identifier t.span).inField .lhs)
      (.anonymous a :: value.inField .rhs :: ending)).Shape .assignment := by
  refine ⟨has_of_append [] _ rfl (by simp) (field_inField _ _) ⟨rfl, rfl⟩, ?_⟩
  exact has_of_append [(Node.leaf .identifier t.span).inField .lhs, .anonymous a] _ rfl
    (by simp) (field_inField _ _) hvalue.inField

theorem shape_declarator {t : Token} {marks values : List Node}
    (hmarks : ∀ c ∈ marks, c.IsMark) (hvalues : ∀ c ∈ values, c.IsExpression) :
    (branch .variableDeclarator ((Node.leaf .identifier t.span).inField .variable_)
      (marks ++ values)).Shape .variableDeclarator := by
  refine ⟨has_of_append [] _ rfl (by simp) (field_inField _ _) ⟨rfl, rfl⟩, ?_⟩
  refine mayHave_of_children (List.forall_mem_cons.2 ⟨.inl ?_, ?_⟩)
  · rw [field_inField]
    decide
  · exact List.forall_mem_append.2 ⟨fun c hc => .inl (hmarks c hc).ne,
      fun c hc => .inr (hvalues c hc)⟩

theorem shape_interface {i load t : Token} {path : Node} {ending : List Node}
    (hpath : path.Is .string) :
    (branch .interface_ (.anonymous i) (path.inField .path :: .anonymous load
      :: (Node.leaf .identifier t.span).inField .module_ :: ending)).Shape .interface_ := by
  refine ⟨has_of_append [.anonymous i] _ rfl (by simp) (field_inField _ _)
    hpath.inField, ?_⟩
  exact has_of_append [.anonymous i, path.inField .path, .anonymous load] _ rfl
    (by simp) (field_inField _ _) ⟨rfl, rfl⟩

-- ============================================================ every node

/-- The spelling of an operator that binds is one that the evaluator knows. -/
theorem spelling_of_precedence {kind : TokenKind} (h : (Parser.precedence? kind).isSome) :
    ∃ text, kind.spelling? = some text ∧ (Operator.ofText? text).isSome := by
  cases kind
  all_goals first
    | exact absurd h (by decide)
    | exact ⟨_, rfl, by decide⟩

theorem operator_of_precedence {t : Token} {whole : List Char} {p : Nat} (ht : t.Stands whole)
    (hp : Parser.precedence? t.kind = some p) : (Operator.ofText? t.lexeme).isSome := by
  obtain ⟨text, hspelling, hop⟩ := spelling_of_precedence (by rw [hp]; rfl)
  rw [ht.spelled hspelling]
  exact hop

/-- The pieces of a string literal are fragments and escape sequences. -/
theorem stringNode_shaped (t : Token) : (Parser.stringNode t).All Shaped := by
  have hpiece (part : StringPart) : (Parser.pieceNode part).Is .stringFragment ∨
      (Parser.pieceNode part).Is .escapeSequence := by
    unfold Parser.pieceNode
    split
    · exact .inl ⟨rfl, rfl⟩
    · exact .inr ⟨rfl, rfl⟩
  refine Node.all_iff.2 ⟨fun _ => named_of_marks fun c hc => ?_, fun c hc => ?_⟩
  · rcases Parser.mem_children_stringNode.1 hc with rfl | ⟨part, -, rfl⟩ | rfl
    · exact .inl ⟨rfl, rfl⟩
    · exact .inr (hpiece part)
    · exact .inl ⟨rfl, rfl⟩
  · rcases Parser.mem_children_stringNode.1 hc with rfl | ⟨part, -, rfl⟩ | rfl
    · exact Node.all_of_childless rfl (shaped_of_unnamed rfl)
    · obtain ⟨kind, hk⟩ := Parser.pieceNode_eq part
      have hkind := hpiece part
      rw [hk] at hkind ⊢
      refine Node.all_of_childless rfl fun _ => ?_
      rcases hkind with ⟨-, h⟩ | ⟨-, h⟩
      · rw [h]
        trivial
      · rw [h]
        trivial
    · exact Node.all_of_childless rfl (shaped_of_unnamed rfl)

/-- Every node of a phrase has the shape of its kind. -/
theorem Spells.shaped {whole : List Char} {p : Phrase} {ts : List Token} {ns : List Node}
    (h : Spells p ts ns) (hstands : ∀ t ∈ ts, t.Stands whole) : ∀ n ∈ ns, n.All Shaped := by
  have hmark (t : Token) : (anonymous t).All Shaped :=
    Node.all_of_childless rfl (shaped_of_unnamed rfl)
  have hname (t : Token) (field : Field) : ((Node.leaf .identifier t.span).inField field).All Shaped :=
    Node.all_of_childless rfl fun _ => trivial
  have hin {n : Node} (field : Field) (hn : n.All Shaped) : (n.inField field).All Shaped :=
    hn.inField hn.self.inField
  have hoptional {n : Node} (field : Option Field) (hn : n.All Shaped) :
      (n.inOptional field).All Shaped := by
    cases field with
    | none => exact hn
    | some field => exact hin field hn
  have hone {n : Node} (hn : n.All Shaped) : ∀ m ∈ [n], m.All Shaped :=
    List.forall_mem_singleton.2 hn
  have hnode {kind : NodeKind} {n : Node} {ns : List Node} (hshape : (branch kind n ns).Shape kind)
      (hns : ∀ c ∈ n :: ns, c.All Shaped) : ∀ m ∈ [branch kind n ns], m.All Shaped :=
    hone (Node.all_iff.2 ⟨fun _ => hshape, hns⟩)
  induction h with
  | number _ =>
    refine hnode ⟨_, _, rfl, .inl ⟨rfl, rfl⟩⟩ (hone ?_)
    exact Node.all_of_childless rfl fun _ => trivial
  | negative _ _ _ =>
    refine hnode ⟨_, _, rfl, .inl ⟨rfl, rfl⟩⟩ (hone ?_)
    exact Node.all_of_childless rfl fun _ => trivial
  | string _ =>
    exact hnode ⟨_, _, rfl, .inr ⟨rfl, rfl⟩⟩ (hone (stringNode_shaped _))
  | name _ => exact hone (Node.all_of_childless rfl fun _ => trivial)
  | group _ _ _ ih => exact ih fun t ht => hstands t (by simp [ht])
  | array _ hitems ih =>
    refine hnode ?_ (List.forall_mem_cons.2 ⟨hmark _, ih fun t ht => hstands t (by simp [ht])⟩)
    exact named_of_marks (List.forall_mem_cons.2 ⟨.inl (isMark_anonymous _), hitems.gives⟩)
  | lambda _ hhead hbody ihhead ihbody =>
    refine hnode (shape_lambda hhead.gives hbody.gives_one) ?_
    refine List.forall_mem_cons.2 ⟨hmark _, List.forall_mem_append.2 ⟨?_, hone (hin _ ?_)⟩⟩
    · exact ihhead fun t ht => hstands t (by simp [ht])
    · exact ihbody (fun t ht => hstands t (by simp [ht])) _ List.mem_cons_self
  | conditional _ ih => exact ih hstands
  | call hcallee _ hitems ihcallee ihitems =>
    refine hnode (shape_call hcallee.gives_one hitems.gives) ?_
    refine List.forall_mem_cons.2 ⟨hin _ ?_, List.forall_mem_cons.2 ⟨hmark _, ?_⟩⟩
    · exact ihcallee (fun t ht => hstands t (by simp [ht])) _ List.mem_cons_self
    · exact ihitems fun t ht => hstands t (by simp [ht])
  | access hparent _ _ ih =>
    refine hnode (shape_access hparent.gives_one) ?_
    refine List.forall_mem_cons.2 ⟨hin _ ?_, List.forall_mem_cons.2 ⟨hmark _, hone (hname _ _)⟩⟩
    exact ih (fun t ht => hstands t (by simp [ht])) _ List.mem_cons_self
  | @binary _ _ op _ _ _ hleft hop hright ihleft ihright =>
    have hknown := operator_of_precedence (hstands op (by simp)) hop
    refine hnode (shape_binary hleft.gives_one hright.gives_one hknown) ?_
    refine List.forall_mem_cons.2 ⟨hin _ ?_, List.forall_mem_cons.2 ⟨hmark _, hone (hin _ ?_)⟩⟩
    · exact ihleft (fun t ht => hstands t (by simp [ht])) _ List.mem_cons_self
    · exact ihright (fun t ht => hstands t (by simp [ht])) _ List.mem_cons_self
  | if_ _ _ hcondition _ hblock halternative ihcondition ihblock ihalternative =>
    refine hnode (shape_if hcondition.gives_one hblock.gives_one halternative.gives) ?_
    refine List.forall_mem_cons.2 ⟨hmark _, List.forall_mem_append.2 ⟨?_, ?_⟩⟩
    · refine List.forall_mem_cons.2 ⟨hmark _, List.forall_mem_cons.2 ⟨hin _ ?_,
        List.forall_mem_cons.2 ⟨hmark _, hone (hin _ ?_)⟩⟩⟩
      · exact ihcondition (fun t ht => hstands t (by simp [ht])) _ List.mem_cons_self
      · exact ihblock (fun t ht => hstands t (by simp [ht])) _ List.mem_cons_self
    · exact ihalternative fun t ht => hstands t (by simp [ht])
  | noElse | noSemicolon | noInterfaces | noStatements =>
    exact fun n hn => absurd hn List.not_mem_nil
  | elseIf _ _ ih | elseBlock _ _ ih =>
    refine List.forall_mem_cons.2 ⟨hmark _, hone (hin _ ?_)⟩
    exact ih (fun t ht => hstands t (by simp [ht])) _ List.mem_cons_self
  | arrow _ _ => exact List.forall_mem_cons.2 ⟨hmark _, hone (hmark _)⟩
  | parameter _ _ _ ih =>
    refine List.forall_mem_cons.2 ⟨hmark _, List.forall_mem_cons.2 ⟨hname _ _, ?_⟩⟩
    exact ih fun t ht => hstands t (by simp [ht])
  | bare _ _ ih => exact ih hstands
  | parameters _ _ ih =>
    exact List.forall_mem_cons.2 ⟨hname _ _, ih fun t ht => hstands t (by simp [ht])⟩
  | close _ => exact hone (hmark _)
  | last _ _ ih =>
    refine List.forall_mem_cons.2 ⟨hoptional _ ?_, hone (hmark _)⟩
    exact ih (fun t ht => hstands t (by simp [ht])) _ List.mem_cons_self
  | item _ _ _ ihitem ihmore =>
    refine List.forall_mem_cons.2 ⟨hoptional _ ?_, List.forall_mem_cons.2 ⟨hmark _, ?_⟩⟩
    · exact ihitem (fun t ht => hstands t (by simp [ht])) _ List.mem_cons_self
    · exact ihmore fun t ht => hstands t (by simp [ht])
  | block _ hinner ih =>
    refine hnode (shape_block hinner.inner_ne_nil hinner.gives) ?_
    exact List.forall_mem_cons.2 ⟨hmark _, ih fun t ht => hstands t (by simp [ht])⟩
  | brace _ => exact hone (hmark _)
  | inner _ _ _ ihfirst ihmore =>
    refine List.forall_mem_cons.2 ⟨?_, ihmore fun t ht => hstands t (by simp [ht])⟩
    exact ihfirst (fun t ht => hstands t (by simp [ht])) _ List.mem_cons_self
  | semicolon _ => exact hone (hmark _)
  | declaration _ hdeclarators hending ih ihending =>
    refine hnode ?_ (List.forall_mem_cons.2 ⟨hmark _, List.forall_mem_append.2 ⟨?_, ?_⟩⟩)
    · refine named_of_marks (List.forall_mem_cons.2 ⟨.inl (isMark_anonymous _), ?_⟩)
      exact List.forall_mem_append.2 ⟨hdeclarators.gives, fun c hc => .inl (hending.gives c hc)⟩
    · exact ih fun t ht => hstands t (by simp [ht])
    · exact ihending fun t ht => hstands t (by simp [ht])
  | return_ _ hending ih =>
    refine hnode (shape_return (fun c hc => absurd hc List.not_mem_nil) hending.gives) ?_
    exact List.forall_mem_cons.2 ⟨hmark _, ih fun t ht => hstands t (by simp [ht])⟩
  | @returnValue _ _ _ value _ _ hvalue hending ih ihending =>
    have hfield : (value.inField .value).IsExpression := hvalue.gives_one.inField
    refine hnode (shape_return (List.forall_mem_singleton.2 hfield) hending.gives) ?_
    refine List.forall_mem_cons.2 ⟨hmark _, List.forall_mem_cons.2 ⟨hin _ ?_, ?_⟩⟩
    · exact ih (fun t ht => hstands t (by simp [ht])) _ List.mem_cons_self
    · exact ihending fun t ht => hstands t (by simp [ht])
  | assignment _ _ hvalue hending ih ihending =>
    refine hnode (shape_assignment hvalue.gives_one) ?_
    refine List.forall_mem_cons.2 ⟨hname _ _, List.forall_mem_cons.2 ⟨hmark _,
      List.forall_mem_cons.2 ⟨hin _ ?_, ?_⟩⟩⟩
    · exact ih (fun t ht => hstands t (by simp [ht])) _ List.mem_cons_self
    · exact ihending fun t ht => hstands t (by simp [ht])
  | plain hinner hending ih ihending =>
    have hexpression := hinner.gives_one
    have hfirst := ih (fun t ht => hstands t (by simp [ht])) _ List.mem_cons_self
    refine hnode ⟨_, _, List.filter_cons_of_pos hexpression.1, hexpression⟩ ?_
    exact List.forall_mem_cons.2 ⟨hfirst, ihending fun t ht => hstands t (by simp [ht])⟩
  | variable_ _ =>
    have hnone {P : Node → Prop} : ∀ c ∈ ([] : List Node), P c := fun c hc => nomatch hc
    exact hnode (shape_declarator hnone hnone) (hone (hname _ _))
  | @variableValue _ _ _ value _ _ hvalue ih =>
    have hfield : (value.inField .value).IsExpression := hvalue.gives_one.inField
    refine hnode (shape_declarator (List.forall_mem_singleton.2 (isMark_anonymous _))
      (List.forall_mem_singleton.2 hfield)) ?_
    refine List.forall_mem_cons.2 ⟨hname _ _, List.forall_mem_cons.2 ⟨hmark _, hone (hin _ ?_)⟩⟩
    exact ih (fun t ht => hstands t (by simp [ht])) _ List.mem_cons_self
  | declarator _ ih => exact ih hstands
  | declarators _ _ _ ih ihmore =>
    refine List.forall_mem_cons.2 ⟨?_, List.forall_mem_cons.2 ⟨hmark _, ?_⟩⟩
    · exact ih (fun t ht => hstands t (by simp [ht])) _ List.mem_cons_self
    · exact ihmore fun t ht => hstands t (by simp [ht])
  | interface_ _ _ _ _ hending ih =>
    refine hnode (shape_interface ⟨rfl, rfl⟩) ?_
    refine List.forall_mem_cons.2 ⟨hmark _, List.forall_mem_cons.2 ⟨hin _ (stringNode_shaped _),
      List.forall_mem_cons.2 ⟨hmark _, List.forall_mem_cons.2 ⟨hname _ _, ?_⟩⟩⟩⟩
    exact ih fun t ht => hstands t (by simp [ht])
  | interfaces _ _ ih ihmore | statements _ _ _ ih ihmore =>
    refine List.forall_mem_cons.2 ⟨?_, ihmore fun t ht => hstands t (by simp [ht])⟩
    exact ih (fun t ht => hstands t (by simp [ht])) _ List.mem_cons_self

end SamScript
