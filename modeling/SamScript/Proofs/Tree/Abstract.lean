/-
Programs by what they say. An abstract program is built from the productions
of the grammar alone: it has no places, no layout and no parentheses. It says
how it is printed (`Program.text`), with parentheses only where the grouping
of the operators needs them, and what its tree has to be but for places
(`Program.sketch`). How tightly an operator binds is said here once more, as
the language defines it, and agrees with the parser
(`Operator.precedence?_token`).
-/
import SamScript.Proofs.Token.Lexeme
import SamScript.Proofs.Tree.Sketch
import SamScript.Value.Operator

namespace SamScript

-- ============================================================== operators

namespace Operator

/-- The kind of an operator's token. -/
def token : Operator → TokenKind
  | .add => .plus
  | .subtract => .minus
  | .multiply => .star
  | .divide => .slash
  | .remainder => .percent
  | .equal => .eq
  | .notEqual => .ne
  | .less => .lt
  | .greater => .gt
  | .lessEqual => .le
  | .greaterEqual => .ge
  | .and => .and
  | .or => .or

/-- How tightly an operator binds. -/
def precedence : Operator → Nat
  | .or => 1
  | .and => 2
  | .equal | .notEqual => 3
  | .less | .greater | .lessEqual | .greaterEqual => 4
  | .add | .subtract => 5
  | .multiply | .divide | .remainder => 6

theorem spelling?_token (op : Operator) : op.token.spelling? = some op.text := by
  cases op <;> rfl

theorem precedence?_token (op : Operator) : Parser.precedence? op.token = some op.precedence := by
  cases op <;> rfl

theorem precedence_lt (op : Operator) : op.precedence < 7 := by
  cases op <;> decide

/-- An operator as a word of a program. -/
def lexeme (op : Operator) : Lexeme :=
  .mark op.token (by rw [op.spelling?_token]; rfl)

theorem text_lexeme (op : Operator) : op.lexeme.text = op.text.toList := by
  show (op.token.spelling?.getD "").toList = op.text.toList
  rw [op.spelling?_token]
  rfl

end Operator

-- ======================================================= parts of sketches

namespace Sketch

def name (x : Name) : Sketch :=
  .word .identifier x.text

/-- An item of a list that may play a role. -/
def inOptional (field : Option Field) (s : Sketch) : Sketch :=
  field.elim s fun field => s.inField field

/-- Sketches with a comma between them. -/
def commas (ss : List Sketch) : List Sketch :=
  ss.intersperse (.mark ",".toList)

/-- Statements in braces. -/
def block (ss : List Sketch) : Sketch :=
  .branch .statementBlock (.mark "\x7b".toList :: (ss ++ [.mark "\x7d".toList]))

/-- Interface declarations under one node, if there are any. -/
def gathered : List Sketch → List Sketch
  | [] => []
  | s :: ss => [.branch .interfaces (s :: ss)]

end Sketch

namespace Abstract

-- ================================================================== syntax

mutual

inductive Expression where
  /-- A number, below zero if it has a sign. -/
  | number (negative : Bool) (n : Number)
  | string (s : StringLiteral)
  | name (x : Name)
  | array (items : List Expression)
  | lambda (parameters : List Name) (body : List Statement)
  | conditional (c : Conditional)
  | call (callee : Expression) (arguments : List Expression)
  | access (parent : Expression) (x : Name)
  | binary (op : Operator) (left right : Expression)

/-- An if expression. -/
inductive Conditional where
  | mk (condition : Expression) (consequence : List Statement) (alternative : Alternative)

/-- The other arm of an if expression, or nothing. -/
inductive Alternative where
  | none
  | block (body : List Statement)
  | elseIf (c : Conditional)

/-- A variable of a declaration. -/
inductive Declarator where
  | bare (x : Name)
  | valued (x : Name) (value : Expression)

inductive Statement where
  | declaration (first : Declarator) (others : List Declarator)
  | assignment (x : Name) (value : Expression)
  | return_
  | returnValue (value : Expression)
  | expression (e : Expression)

end

/-- An interface declaration. -/
structure Interface where
  path : StringLiteral
  name : Name

structure Program where
  interfaces : List Interface
  statements : List Statement

/-- How tightly an expression holds together: an operator as tightly as it
binds, anything else more tightly than every operator. -/
def Expression.level : Expression → Nat
  | .binary op _ _ => op.precedence
  | _ => 7

-- ================================================================ printing

/-- Lexemes in parentheses where that is called for. -/
def grouped (needed : Bool) (ls : List Lexeme) : List Lexeme :=
  if needed then .mark .lparen rfl :: (ls ++ [.mark .rparen rfl]) else ls

/-- Lexemes with a comma between the lists of them. -/
def commas (lists : List (List Lexeme)) : List Lexeme :=
  [.mark .comma rfl].intercalate lists

theorem commas_one (ls : List Lexeme) : commas [ls] = ls :=
  List.intercalate_singleton

theorem commas_cons_cons (ls ms : List Lexeme) (rest : List (List Lexeme)) :
    commas (ls :: ms :: rest) = ls ++ .mark .comma rfl :: commas (ms :: rest) :=
  rfl

theorem commas_cons (ls : List Lexeme) (rest : List (List Lexeme)) :
    ∃ ms, commas (ls :: rest) = ls ++ ms := by
  cases rest with
  | nil => exact ⟨[], by rw [commas_one, List.append_nil]⟩
  | cons ms rest => exact ⟨_, commas_cons_cons ls ms rest⟩

def braced (ls : List Lexeme) : List Lexeme :=
  .mark .lbrace rfl :: (ls ++ [.mark .rbrace rfl])

mutual

def Expression.lexemes : Expression → List Lexeme
  | .number negative n => (if negative then [.sign] else []) ++ [.number n]
  | .string s => [.string s]
  | .name x => [.name x]
  | .array items =>
    .mark .lbracket rfl :: (commas (Expression.lexemesEach items) ++ [.mark .rbracket rfl])
  | .lambda parameters body =>
    .mark .lparen rfl :: (commas (parameters.map fun x => [.name x])
      ++ .mark .rparen rfl :: .mark .doubleArrow rfl :: braced (Statement.lexemesAll body))
  | .conditional c => c.lexemes
  | .call callee arguments => grouped (callee.level < 7) callee.lexemes
      ++ .mark .lparen rfl :: (commas (Expression.lexemesEach arguments) ++ [.mark .rparen rfl])
  | .access parent x => grouped (parent.level < 7) parent.lexemes ++ [.mark .dot rfl, .name x]
  | .binary op left right => grouped (left.level < op.precedence) left.lexemes
      ++ op.lexeme :: grouped (right.level ≤ op.precedence) right.lexemes

def Conditional.lexemes : Conditional → List Lexeme
  | .mk condition consequence alternative =>
    .mark .if_ rfl :: .mark .lparen rfl :: (condition.lexemes
      ++ .mark .rparen rfl :: (braced (Statement.lexemesAll consequence) ++ alternative.lexemes))

def Alternative.lexemes : Alternative → List Lexeme
  | .none => []
  | .block body => .mark .else_ rfl :: braced (Statement.lexemesAll body)
  | .elseIf c => .mark .else_ rfl :: c.lexemes

def Declarator.lexemes : Declarator → List Lexeme
  | .bare x => [.name x]
  | .valued x value => .name x :: .mark .assign rfl :: value.lexemes

def Statement.lexemes : Statement → List Lexeme
  | .declaration first others => .mark .let_ rfl
      :: (commas (first.lexemes :: Declarator.lexemesEach others) ++ [.mark .semicolon rfl])
  | .assignment x value =>
    .name x :: .mark .assign rfl :: (value.lexemes ++ [.mark .semicolon rfl])
  | .return_ => [.mark .return_ rfl, .mark .semicolon rfl]
  | .returnValue value => .mark .return_ rfl :: (value.lexemes ++ [.mark .semicolon rfl])
  | .expression e => e.lexemes ++ [.mark .semicolon rfl]

def Expression.lexemesEach : List Expression → List (List Lexeme)
  | [] => []
  | e :: es => e.lexemes :: Expression.lexemesEach es

def Declarator.lexemesEach : List Declarator → List (List Lexeme)
  | [] => []
  | d :: ds => d.lexemes :: Declarator.lexemesEach ds

def Statement.lexemesAll : List Statement → List Lexeme
  | [] => []
  | s :: ss => s.lexemes ++ Statement.lexemesAll ss

end

def Interface.lexemes (i : Interface) : List Lexeme :=
  [.mark .interface_ rfl, .string i.path, .mark .load rfl, .name i.name, .mark .semicolon rfl]

def Program.lexemes (p : Program) : List Lexeme :=
  (p.interfaces.map Interface.lexemes).flatten ++ Statement.lexemesAll p.statements

/-- A program in print: its lexemes with one space between them, and none
after the sign of a number. -/
def Program.text (p : Program) : String :=
  String.ofList (Lexeme.join p.lexemes)

-- =================================================================== trees

mutual

def Expression.sketch : Expression → Sketch
  | .number negative n =>
    .branch .literal [.word .number ((if negative then ['-'] else []) ++ n.text)]
  | .string s => .branch .literal [.string s.quote s.pieces]
  | .name x => Sketch.name x
  | .array items => .branch .arrayExpression
      (.mark "[".toList :: (Sketch.commas (Expression.sketches items) ++ [.mark "]".toList]))
  | .lambda parameters body => .branch .lambdaExpression
      (.mark "(".toList
        :: (Sketch.commas (parameters.map fun x => (Sketch.name x).inField .parameters)
          ++ [.mark ")".toList, .mark "=>".toList,
            (Sketch.block (Statement.sketches body)).inField .body]))
  | .conditional c => c.sketch
  | .call callee arguments => .branch .callExpression
      (callee.sketch.inField .function :: .mark "(".toList
        :: (Sketch.commas ((Expression.sketches arguments).map (·.inField .arguments))
          ++ [.mark ")".toList]))
  | .access parent x => .branch .nestedIdentifier
      [parent.sketch.inField .parent, .mark ".".toList, (Sketch.name x).inField .name]
  | .binary op left right => .branch .binaryExpression
      [left.sketch.inField .left, .mark op.text.toList, right.sketch.inField .right]

def Conditional.sketch : Conditional → Sketch
  | .mk condition consequence alternative => .branch .ifExpression
      ([.mark "if".toList, .mark "(".toList, condition.sketch.inField .condition,
        .mark ")".toList, (Sketch.block (Statement.sketches consequence)).inField .consequence]
        ++ alternative.sketches)

def Alternative.sketches : Alternative → List Sketch
  | .none => []
  | .block body =>
    [.mark "else".toList, (Sketch.block (Statement.sketches body)).inField .else_]
  | .elseIf c => [.mark "else".toList, c.sketch.inField .else_]

def Declarator.sketch : Declarator → Sketch
  | .bare x => .branch .variableDeclarator [(Sketch.name x).inField .variable_]
  | .valued x value => .branch .variableDeclarator
      [(Sketch.name x).inField .variable_, .mark "=".toList, value.sketch.inField .value]

def Statement.sketch : Statement → Sketch
  | .declaration first others => .branch .variableDeclaration
      (.mark "let".toList :: (Sketch.commas (first.sketch :: Declarator.sketches others)
        ++ [.mark ";".toList]))
  | .assignment x value => .branch .assignment
      [(Sketch.name x).inField .lhs, .mark "=".toList, value.sketch.inField .rhs,
        .mark ";".toList]
  | .return_ => .branch .returnStatement [.mark "return".toList, .mark ";".toList]
  | .returnValue value => .branch .returnStatement
      [.mark "return".toList, value.sketch.inField .value, .mark ";".toList]
  | .expression e => .branch .expressionStatement [e.sketch, .mark ";".toList]

def Expression.sketches : List Expression → List Sketch
  | [] => []
  | e :: es => e.sketch :: Expression.sketches es

def Declarator.sketches : List Declarator → List Sketch
  | [] => []
  | d :: ds => d.sketch :: Declarator.sketches ds

def Statement.sketches : List Statement → List Sketch
  | [] => []
  | s :: ss => s.sketch :: Statement.sketches ss

end

def Interface.sketch (i : Interface) : Sketch :=
  .branch .interface_ [.mark "interface".toList,
    (Sketch.string i.path.quote i.path.pieces).inField .path, .mark "load".toList,
    (Sketch.name i.name).inField .module_, .mark ";".toList]

/-- The tree that a program is meant to have, without its places. -/
def Program.sketch (p : Program) : Sketch :=
  .branch .sourceFile
    (Sketch.gathered (p.interfaces.map Interface.sketch) ++ Statement.sketches p.statements)

end Abstract

end SamScript
