/-
The grammar as a relation. `Spells p tokens nodes` says that some tokens can
be read as a phrase and that these are its nodes; there is one rule for each
way to build a node. The rules say nothing about precedence or about where a
phrase has to end, except that a statement does not stop in front of an
operator (`Parser.Parted`): they describe what trees the parser can build
(`Parser.program_spells` in the next module), and a fact about all parsed
trees is an induction over them.
-/
import SamScript.Tree.Parser

namespace SamScript

/-- What some tokens can be read as. -/
inductive Phrase where
  | expression
  /-- An if expression. -/
  | conditional
  /-- The other arm of an if expression, or nothing. -/
  | alternative
  /-- The head of a lambda after its opening parenthesis, up to the arrow. -/
  | head
  /-- The same after a name. -/
  | tail
  /-- The items of an array or a call, and what closes them. -/
  | listed (field : Option Field) (close : TokenKind)
  | block
  /-- The statements of a block and its closing brace. -/
  | inner
  | statement
  /-- The semicolon after a statement, or nothing. -/
  | ending
  | declarators
  | declarator
  | interface_
  /-- Interface declarations. -/
  | interfaces
  /-- Statements. -/
  | statements

/-- An item of a list that may play a role. -/
def Node.inOptional (field : Option Field) (n : Node) : Node :=
  field.elim n fun field => n.inField field

namespace Parser

/-- Whether some tokens do not go on with an expression in front of them by an
operator. -/
def NoOperator (ts : List Token) : Prop :=
  ∀ t ∈ ts.head?, precedence? t.kind = none

/-- Whether a statement is apart from what comes behind it: it ends with a
semicolon, or no operator follows. -/
def Parted (ts more : List Token) : Prop :=
  (∃ t ∈ ts.getLast?, t.kind = .semicolon) ∨ NoOperator more

end Parser

open Node SamScript.Parser in
/-- The rules of the grammar. -/
inductive Spells : Phrase → List Token → List Node → Prop where
  -- operands
  | number {t : Token} : t.kind = .number → Spells .expression [t] [numberNode t.span]
  | negative {m t : Token} : m.kind = .minus → t.kind = .number → touches m t →
      Spells .expression [m, t] [numberNode { m.span with stop := t.span.stop }]
  | string {t : Token} : t.kind = .string →
      Spells .expression [t] [.branch .literal (stringNode t) []]
  | name {t : Token} : t.kind = .identifier → Spells .expression [t] [.leaf .identifier t.span]
  | group {o c : Token} {ts : List Token} {n : Node} : o.kind = .lparen → c.kind = .rparen →
      Spells .expression ts [n] → Spells .expression ([o] ++ (ts ++ [c])) [n]
  | array {o : Token} {ts : List Token} {items : List Node} : o.kind = .lbracket →
      Spells (.listed none .rbracket) ts items →
      Spells .expression ([o] ++ ts) [.branch .arrayExpression (.anonymous o) items]
  | lambda {o : Token} {hs bs : List Token} {head : List Node} {body : Node} :
      o.kind = .lparen → Spells .head hs head → Spells .block bs [body] →
      Spells .expression ([o] ++ (hs ++ bs))
        [.branch .lambdaExpression (.anonymous o) (head ++ [body.inField .body])]
  | conditional {ts : List Token} {n : Node} : Spells .conditional ts [n] →
      Spells .expression ts [n]
  -- what may follow an operand
  | call {fs is : List Token} {o : Token} {callee : Node} {items : List Node} :
      Spells .expression fs [callee] → o.kind = .lparen →
      Spells (.listed (some .arguments) .rparen) is items →
      Spells .expression (fs ++ ([o] ++ is))
        [.branch .callExpression (callee.inField .function) (.anonymous o :: items)]
  | access {ps : List Token} {dot t : Token} {parent : Node} :
      Spells .expression ps [parent] → dot.kind = .dot → t.kind = .identifier →
      Spells .expression (ps ++ ([dot] ++ [t]))
        [.branch .nestedIdentifier (parent.inField .parent)
          [.anonymous dot, (Node.leaf .identifier t.span).inField .name]]
  | binary {ls rs : List Token} {op : Token} {left right : Node} {p : Nat} :
      Spells .expression ls [left] → precedence? op.kind = some p →
      Spells .expression rs [right] →
      Spells .expression (ls ++ ([op] ++ rs))
        [.branch .binaryExpression (left.inField .left) [.anonymous op, right.inField .right]]
  -- conditionals
  | if_ {i o c : Token} {cs bs as : List Token} {condition consequence : Node}
      {alternative : List Node} : i.kind = .if_ → o.kind = .lparen →
      Spells .expression cs [condition] → c.kind = .rparen → Spells .block bs [consequence] →
      Spells .alternative as alternative →
      Spells .conditional ([i] ++ ([o] ++ (cs ++ ([c] ++ (bs ++ as)))))
        [.branch .ifExpression (.anonymous i) ([.anonymous o, condition.inField .condition,
          .anonymous c, consequence.inField .consequence] ++ alternative)]
  | noElse : Spells .alternative [] []
  | elseIf {e : Token} {ts : List Token} {n : Node} : e.kind = .else_ →
      Spells .conditional ts [n] →
      Spells .alternative ([e] ++ ts) [.anonymous e, n.inField .else_]
  | elseBlock {e : Token} {ts : List Token} {n : Node} : e.kind = .else_ →
      Spells .block ts [n] → Spells .alternative ([e] ++ ts) [.anonymous e, n.inField .else_]
  -- heads of lambdas
  | arrow {c a : Token} : c.kind = .rparen → a.kind = .doubleArrow →
      Spells .tail ([c] ++ [a]) [.anonymous c, .anonymous a]
  | parameter {c t : Token} {ts : List Token} {nodes : List Node} : c.kind = .comma →
      t.kind = .identifier → Spells .tail ts nodes →
      Spells .tail ([c] ++ ([t] ++ ts))
        (.anonymous c :: (Node.leaf .identifier t.span).inField .parameters :: nodes)
  | bare {c : Token} {ts : List Token} {nodes : List Node} : c.kind = .rparen →
      Spells .tail ([c] ++ ts) nodes → Spells .head ([c] ++ ts) nodes
  | parameters {t : Token} {ts : List Token} {nodes : List Node} : t.kind = .identifier →
      Spells .tail ts nodes →
      Spells .head ([t] ++ ts) ((Node.leaf .identifier t.span).inField .parameters :: nodes)
  -- lists
  | close {field : Option Field} {close : TokenKind} {t : Token} : t.kind = close →
      Spells (.listed field close) [t] [.anonymous t]
  | last {field : Option Field} {close : TokenKind} {ts : List Token} {t : Token} {item : Node} :
      Spells .expression ts [item] → t.kind = close →
      Spells (.listed field close) (ts ++ [t]) [item.inOptional field, .anonymous t]
  | item {field : Option Field} {close : TokenKind} {ts more : List Token} {t : Token}
      {item : Node} {nodes : List Node} :
      Spells .expression ts [item] → t.kind = .comma → Spells (.listed field close) more nodes →
      Spells (.listed field close) (ts ++ ([t] ++ more))
        (item.inOptional field :: .anonymous t :: nodes)
  -- blocks
  | block {o : Token} {ts : List Token} {nodes : List Node} : o.kind = .lbrace →
      Spells .inner ts nodes →
      Spells .block ([o] ++ ts) [.branch .statementBlock (.anonymous o) nodes]
  | brace {t : Token} : t.kind = .rbrace → Spells .inner [t] [.anonymous t]
  | inner {ts more : List Token} {first : Node} {nodes : List Node} :
      Spells .statement ts [first] → Parted ts more → Spells .inner more nodes →
      Spells .inner (ts ++ more) (first :: nodes)
  -- statements
  | noSemicolon : Spells .ending [] []
  | semicolon {t : Token} : t.kind = .semicolon → Spells .ending [t] [.anonymous t]
  | declaration {l : Token} {ts es : List Token} {nodes ending : List Node} : l.kind = .let_ →
      Spells .declarators ts nodes → Spells .ending es ending →
      Spells .statement ([l] ++ (ts ++ es))
        [.branch .variableDeclaration (.anonymous l) (nodes ++ ending)]
  | return_ {r : Token} {es : List Token} {ending : List Node} : r.kind = .return_ →
      Spells .ending es ending →
      Spells .statement ([r] ++ es) [.branch .returnStatement (.anonymous r) ending]
  | returnValue {r : Token} {ts es : List Token} {value : Node} {ending : List Node} :
      r.kind = .return_ → Spells .expression ts [value] → Spells .ending es ending →
      Spells .statement ([r] ++ (ts ++ es))
        [.branch .returnStatement (.anonymous r) (value.inField .value :: ending)]
  | assignment {t a : Token} {ts es : List Token} {value : Node} {ending : List Node} :
      t.kind = .identifier → a.kind = .assign → Spells .expression ts [value] →
      Spells .ending es ending →
      Spells .statement ([t] ++ ([a] ++ (ts ++ es)))
        [.branch .assignment ((Node.leaf .identifier t.span).inField .lhs)
          (.anonymous a :: value.inField .rhs :: ending)]
  | plain {ts es : List Token} {inner : Node} {ending : List Node} :
      Spells .expression ts [inner] → Spells .ending es ending →
      Spells .statement (ts ++ es) [.branch .expressionStatement inner ending]
  -- declarations
  | variable_ {t : Token} : t.kind = .identifier →
      Spells .declarator [t]
        [.branch .variableDeclarator ((Node.leaf .identifier t.span).inField .variable_) []]
  | variableValue {t a : Token} {ts : List Token} {value : Node} : t.kind = .identifier →
      a.kind = .assign → Spells .expression ts [value] →
      Spells .declarator ([t] ++ ([a] ++ ts))
        [.branch .variableDeclarator ((Node.leaf .identifier t.span).inField .variable_)
          [.anonymous a, value.inField .value]]
  | declarator {ts : List Token} {n : Node} : Spells .declarator ts [n] →
      Spells .declarators ts [n]
  | declarators {ts more : List Token} {c : Token} {n : Node} {nodes : List Node} :
      Spells .declarator ts [n] → c.kind = .comma → Spells .declarators more nodes →
      Spells .declarators (ts ++ ([c] ++ more)) (n :: .anonymous c :: nodes)
  -- programs
  | interface_ {i path load t : Token} {es : List Token} {ending : List Node} :
      i.kind = .interface_ → path.kind = .string → load.kind = .load → t.kind = .identifier →
      Spells .ending es ending →
      Spells .interface_ ([i] ++ ([path] ++ ([load] ++ ([t] ++ es))))
        [.branch .interface_ (.anonymous i)
          ((stringNode path).inField .path :: .anonymous load
            :: (Node.leaf .identifier t.span).inField .module_ :: ending)]
  | noInterfaces : Spells .interfaces [] []
  | interfaces {ts more : List Token} {n : Node} {nodes : List Node} :
      Spells .interface_ ts [n] → Spells .interfaces more nodes →
      Spells .interfaces (ts ++ more) (n :: nodes)
  | noStatements : Spells .statements [] []
  | statements {ts more : List Token} {n : Node} {nodes : List Node} :
      Spells .statement ts [n] → Parted ts more → Spells .statements more nodes →
      Spells .statements (ts ++ more) (n :: nodes)

/-- The interface declarations of a program under one node, if there are any. -/
def gathered : List Node → List Node
  | [] => []
  | d :: ds => [.branch .interfaces d ds]

/-- The root of a program that ends at a place, over its interface
declarations and its statements. -/
def rootNode (stop : Span) (declared inner : List Node) : Node :=
  .mk .sourceFile true none (Extent.through ⟨0, 0, ⟨0, 0⟩, ⟨0, 0⟩⟩ stop.extent)
    (gathered declared ++ inner)

end SamScript
