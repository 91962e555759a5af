/-
A parser that reads tokens by their numbers. Its entries are the tokens and,
behind them, the end of the program; it keeps the place where it is and moves
on by one. Three things can go wrong with such a parser that cannot go wrong
with a list: it can read a place where there is no entry, it can try to move
past the end, and a production or a loop that takes nothing can go on for
ever. Each is an outcome of its own here (`Halt`), nothing guards against any
of them.

A production gets its recursion from `Ways`: whatever it begins after it has
taken a token, the next turn of a loop too, is done one level down. `ways n`
has `n` levels, and below the last one everything comes to `exhausted`. So a
parser with as many levels as there are tokens left runs out of them exactly
if something was begun again without a token taken. `Proofs/Tree/Bounded`
shows that none of the three ever comes up.
-/
import SamScript.Proofs.Tree.Grammar

namespace SamScript.Indexed

variable {α β : Type}

-- =============================================================== readers

/-- What stands at a place of a program. -/
inductive Entry where
  | token (t : Token)
  /-- The end of the program. -/
  | stop (span : Span)

/-- Why there is no node. -/
inductive Halt where
  /-- The tokens are no program. -/
  | fault (e : ParseError)
  /-- There is no entry at the place that was read. -/
  | outside
  /-- The end of the program was to be taken. -/
  | pastEnd
  /-- There was no level left for what was begun. -/
  | exhausted
  deriving DecidableEq

/-- Reads from a place on: what was read, and the place behind it. -/
def Reader (α : Type) : Type :=
  Nat → Except Halt (α × Nat)

namespace Reader

instance : Monad Reader where
  pure a := fun i => .ok (a, i)
  bind x f := fun i =>
    match x i with
    | .ok (a, j) => f a j
    | .error e => .error e

theorem pure_apply (a : α) (i : Nat) : (pure a : Reader α) i = .ok (a, i) := rfl

theorem bind_ok {x : Reader α} {f : α → Reader β} {a : α} {i j : Nat} (h : x i = .ok (a, j)) :
    (x >>= f) i = f a j := by
  show (match x i with | .ok (a, j) => f a j | .error e => .error e) = f a j
  rw [h]

theorem bind_error {x : Reader α} {f : α → Reader β} {e : Halt} {i : Nat} (h : x i = .error e) :
    (x >>= f) i = .error e := by
  show (match x i with | .ok (a, j) => f a j | .error e => .error e) = .error e
  rw [h]

/-- Ends without a value. -/
def halt (e : Halt) : Reader α :=
  fun _ => .error e

end Reader

-- ================================================================ entries

/-- The entries of a program: its tokens, and its end behind them. -/
def entries (list : TokenList) : List Entry :=
  list.tokens.map .token ++ [.stop list.stop]

namespace Entry

def isKind (kind : TokenKind) : Entry → Bool
  | .token t => t.kind = kind
  | .stop _ => false

def isStop : Entry → Bool
  | .token _ => false
  | .stop _ => true

@[simp] theorem isKind_token (kind : TokenKind) (t : Token) :
    (Entry.token t).isKind kind = decide (t.kind = kind) := rfl

@[simp] theorem isKind_stop (kind : TokenKind) (span : Span) :
    (Entry.stop span).isKind kind = false := rfl

@[simp] theorem isStop_token (t : Token) : (Entry.token t).isStop = false := rfl

@[simp] theorem isStop_stop (span : Span) : (Entry.stop span).isStop = true := rfl

/-- That something else was expected than this entry. -/
def missing (expected : Expected) : Entry → ParseError
  | .token t => ⟨.unexpectedToken expected t.lexeme, t.span⟩
  | .stop span => ⟨.unexpectedEnd expected, span⟩

end Entry

section

variable (list : TokenList)

/-- Looks at the entry some places further on, without moving. -/
def peek (offset : Nat) : Reader Entry :=
  fun i =>
    match (entries list)[i + offset]? with
    | some e => .ok (e, i)
    | none => .error .outside

/-- Whether a token of a kind stands some places further on. -/
def check (kind : TokenKind) (offset : Nat) : Reader Bool := do
  return (← peek list offset).isKind kind

/-- Takes the token at the place, whatever it is. -/
def advance : Reader Token :=
  fun i =>
    match (entries list)[i]? with
    | some (.token t) => .ok (t, i + 1)
    | some (.stop _) => .error .pastEnd
    | none => .error .outside

/-- Fails because something else was expected at the place. -/
def fail (expected : Expected) : Reader α := do
  let e ← peek list 0
  Reader.halt (.fault (e.missing expected))

/-- Takes a token of a kind. -/
def expect (kind : TokenKind) (expected : Expected) : Reader Token := do
  if ← check list kind 0 then advance list else fail list expected

/-- Whether the token before the place is of a kind. -/
def follows (kind : TokenKind) : Reader Bool :=
  fun i =>
    if i = 0 then .ok (false, i)
    else
      match (entries list)[i - 1]? with
      | some e => .ok (e.isKind kind, i)
      | none => .error .outside

/-- Takes the semicolon after a statement, or finds that it may be missing. -/
def finish : Reader (List Node) := do
  if ← check list .semicolon 0 then
    return [.anonymous (← advance list)]
  let closed ← follows list .rbrace
  let e ← peek list 0
  if e.isKind .rbrace || e.isStop || closed then return []
  fail list .semicolon

-- ============================================================== lookahead

/-- Whether a closing parenthesis and an arrow stand some places further on. -/
def closesAhead (offset : Nat) : Reader Bool := do
  if ← check list .rparen offset then check list .doubleArrow (offset + 1) else return false

/-- Whether commas and names, a closing parenthesis and an arrow stand some
places further on; the levels are the turns that the loop may take. -/
def tailAhead : Nat → Nat → Reader Bool
  | 0, _ => Reader.halt .exhausted
  | levels + 1, offset => do
    if ← check list .comma offset then
      if ← check list .identifier (offset + 1) then tailAhead levels (offset + 2)
      else return false
    else closesAhead list offset

/-- Whether the head of a lambda stands behind the parenthesis at the place. -/
def lambdaAhead (levels : Nat) : Reader Bool := do
  if ← check list .identifier 1 then tailAhead list levels 2 else closesAhead list 1

end

-- ============================================================= productions

/-- The productions and loops that are gone on with one level down. -/
structure Ways where
  binary : Nat → Reader Node
  operators : Nat → Node → Reader Node
  suffixes : Node → Reader Node
  listed : Option Field → TokenKind → Expected → Reader (List Node)
  parameters : Reader (List Node)
  conditional : Reader Node
  block : Reader Node
  blockItems : Reader (List Node)
  declarators : Reader (List Node)
  interfaces : Reader (List Node)
  statements : Reader (List Node)

namespace Ways

/-- Where no level is left. -/
def none : Ways where
  binary _ := Reader.halt .exhausted
  operators _ _ := Reader.halt .exhausted
  suffixes _ := Reader.halt .exhausted
  listed _ _ _ := Reader.halt .exhausted
  parameters := Reader.halt .exhausted
  conditional := Reader.halt .exhausted
  block := Reader.halt .exhausted
  blockItems := Reader.halt .exhausted
  declarators := Reader.halt .exhausted
  interfaces := Reader.halt .exhausted
  statements := Reader.halt .exhausted

variable (list : TokenList) (levels : Nat) (w : Ways)

-- -------------------------------------------------------------- expressions

/-- The names behind the first in the head of a lambda. -/
def parametersBy : Reader (List Node) := do
  if ← check list .comma 0 then
    let comma ← advance list
    let name ← expect list .identifier .parameterName
    let more ← w.parameters
    return .anonymous comma :: (Node.leaf .identifier name.span).inField .parameters :: more
  else return []

/-- The names in the head of a lambda. -/
def namesBy : Reader (List Node) := do
  if ← check list .identifier 0 then
    let name ← advance list
    let more ← w.parameters
    return (Node.leaf .identifier name.span).inField .parameters :: more
  else return []

/-- A lambda, once the lookahead has found one. -/
def lambdaBy : Reader Node := do
  let opening ← advance list
  let names ← w.namesBy list
  let closing ← expect list .rparen .closeParen
  let arrow ← expect list .doubleArrow .arrow
  let body ← w.block
  return .branch .lambdaExpression (.anonymous opening)
    (names ++ [.anonymous closing, .anonymous arrow] ++ [body.inField .body])

/-- An expression in parentheses. -/
def groupBy : Reader Node := do
  let _ ← advance list
  let inner ← w.binary 0
  let _ ← expect list .rparen .closeParen
  return inner

/-- The other arm of an if expression, if there is one. -/
def alternativeBy : Reader (List Node) := do
  if ← check list .else_ 0 then
    let keyword ← advance list
    let inner ← if ← check list .if_ 0 then w.conditional else w.block
    return [.anonymous keyword, inner.inField .else_]
  else return []

def conditionalBy : Reader Node := do
  let keyword ← advance list
  let opening ← expect list .lparen .openAfterIf
  let condition ← w.binary 0
  let closing ← expect list .rparen .closeParen
  let consequence ← w.block
  let alternative ← w.alternativeBy list
  return .branch .ifExpression (.anonymous keyword)
    ([.anonymous opening, condition.inField .condition, .anonymous closing,
      consequence.inField .consequence] ++ alternative)

def arrayBy : Reader Node := do
  let opening ← advance list
  let items ← w.listed .none .rbracket .closeBracket
  return .branch .arrayExpression (.anonymous opening) items

/-- A number behind a sign that touches it. -/
def negativeBy : Reader Node := do
  let sign ← advance list
  let digits ← advance list
  return Parser.numberNode { sign.span with stop := digits.span.stop }

def primaryBy : Reader Node := do
  match ← peek list 0 with
  | .stop _ => fail list .expression
  | .token t =>
    match t.kind with
    | .number => do return Parser.numberNode (← advance list).span
    | .minus => do
      match ← peek list 1 with
      | .stop _ => fail list .expression
      | .token n =>
        if n.kind = .number ∧ Parser.touches t n then negativeBy list
        else fail list .expression
    | .string => do return .branch .literal (Parser.stringNode (← advance list)) []
    | .identifier => do return .leaf .identifier (← advance list).span
    | .lparen => do if ← lambdaAhead list levels then w.lambdaBy list else w.groupBy list
    | .lbracket => w.arrayBy list
    | .if_ => w.conditionalBy list
    | _ => fail list .expression

/-- A call of what came before. -/
def callBy (before : Node) : Reader Node := do
  let opening ← advance list
  let items ← w.listed (some .arguments) .rparen .closeParen
  w.suffixes (.branch .callExpression (before.inField .function) (.anonymous opening :: items))

/-- An attribute of what came before. -/
def accessBy (before : Node) : Reader Node := do
  let dot ← advance list
  let name ← expect list .identifier .attributeName
  w.suffixes (.branch .nestedIdentifier (before.inField .parent)
    [.anonymous dot, (Node.leaf .identifier name.span).inField .name])

def suffixesBy (before : Node) : Reader Node := do
  if ← check list .lparen 0 then w.callBy list before
  else if ← check list .dot 0 then w.accessBy list before
  else return before

def operatorsBy (least : Nat) (left : Node) : Reader Node := do
  match ← peek list 0 with
  | .stop _ => return left
  | .token t =>
    match Parser.precedence? t.kind with
    | .none => return left
    | some p =>
      if least ≤ p then do
        let op ← advance list
        let right ← w.binary (p + 1)
        w.operators least (.branch .binaryExpression (left.inField .left)
          [.anonymous op, right.inField .right])
      else return left

def binaryBy (least : Nat) : Reader Node := do
  let first ← w.primaryBy list levels
  let left ← w.suffixesBy list first
  w.operatorsBy list least left

/-- One item at least, and what closes the list. -/
def itemsBy (field : Option Field) (close : TokenKind) (expected : Expected) :
    Reader (List Node) := do
  let item ← w.binaryBy list levels 0
  let item := field.elim item fun field => item.inField field
  if ← check list .comma 0 then
    let comma ← advance list
    let more ← w.listed field close expected
    return item :: .anonymous comma :: more
  else
    let closing ← expect list close expected
    return [item, .anonymous closing]

def listedBy (field : Option Field) (close : TokenKind) (expected : Expected) :
    Reader (List Node) := do
  if ← check list close 0 then return [.anonymous (← advance list)]
  else w.itemsBy list levels field close expected

-- --------------------------------------------------------------- statements

/-- A variable with its value, if it is given one. -/
def declaratorBy : Reader Node := do
  let name ← expect list .identifier .variableName
  let variable_ := (Node.leaf .identifier name.span).inField .variable_
  if ← check list .assign 0 then
    let assign ← advance list
    let value ← w.binary 0
    return .branch .variableDeclarator variable_ [.anonymous assign, value.inField .value]
  else return .branch .variableDeclarator variable_ []

def declaratorsBy : Reader (List Node) := do
  let first ← w.declaratorBy list
  if ← check list .comma 0 then
    let comma ← advance list
    let more ← w.declarators
    return first :: .anonymous comma :: more
  else return [first]

def declarationBy : Reader Node := do
  let keyword ← advance list
  let inner ← w.declarators
  let semicolon ← finish list
  return .branch .variableDeclaration (.anonymous keyword) (inner ++ semicolon)

def returnBy : Reader Node := do
  let keyword ← advance list
  let e ← peek list 0
  if e.isKind .semicolon || e.isKind .rbrace || e.isStop then
    let semicolon ← finish list
    return .branch .returnStatement (.anonymous keyword) semicolon
  else
    let value ← w.binary 0
    let semicolon ← finish list
    return .branch .returnStatement (.anonymous keyword) (value.inField .value :: semicolon)

def assignmentBy : Reader Node := do
  let name ← expect list .identifier .identifier
  let assign ← advance list
  let value ← w.binary 0
  let semicolon ← finish list
  return .branch .assignment ((Node.leaf .identifier name.span).inField .lhs)
    (.anonymous assign :: value.inField .rhs :: semicolon)

def expressionBy : Reader Node := do
  let inner ← w.binaryBy list levels 0
  let semicolon ← finish list
  return .branch .expressionStatement inner semicolon

/-- Whether a name and an assignment sign are ahead. -/
def assignmentAhead : Reader Bool := do
  if ← check list .identifier 0 then check list .assign 1 else return false

def statementBy : Reader Node := do
  if ← check list .let_ 0 then w.declarationBy list
  else if ← check list .return_ 0 then w.returnBy list
  else if ← assignmentAhead list then w.assignmentBy list
  else w.expressionBy list levels

def blockItemsBy : Reader (List Node) := do
  let e ← peek list 0
  if e.isKind .rbrace || e.isStop then return [.anonymous (← expect list .rbrace .closeBrace)]
  else
    let first ← w.statementBy list levels
    let more ← w.blockItems
    return first :: more

def blockBy : Reader Node := do
  let opening ← expect list .lbrace .openBrace
  let inner ← w.blockItems
  return .branch .statementBlock (.anonymous opening) inner

-- ----------------------------------------------------------------- programs

def interfaceBy : Reader Node := do
  let keyword ← advance list
  let path ← expect list .string .manifestPath
  let load ← expect list .load .load
  let name ← expect list .identifier .interfaceName
  let semicolon ← finish list
  return .branch .interface_ (.anonymous keyword)
    ((Parser.stringNode path).inField .path :: .anonymous load
      :: (Node.leaf .identifier name.span).inField .module_ :: semicolon)

def interfacesBy : Reader (List Node) := do
  if ← check list .interface_ 0 then
    let first ← interfaceBy list
    let more ← w.interfaces
    return first :: more
  else return []

def statementsBy : Reader (List Node) := do
  if (← peek list 0).isStop then return []
  else
    let first ← w.statementBy list levels
    let more ← w.statements
    return first :: more

/-- One more level. -/
def step : Ways where
  binary := w.binaryBy list levels
  operators := w.operatorsBy list
  suffixes := w.suffixesBy list
  listed := w.listedBy list levels
  parameters := w.parametersBy list
  conditional := w.conditionalBy list
  block := w.blockBy list
  blockItems := w.blockItemsBy list levels
  declarators := w.declaratorsBy list
  interfaces := w.interfacesBy list
  statements := w.statementsBy list levels

end Ways

section

variable (list : TokenList)

/-- What can be done with some levels. -/
def ways : Nat → Ways
  | 0 => .none
  | levels + 1 => (ways levels).step list levels

variable (levels : Nat)

/-- An expression. -/
def expression : Reader Node :=
  (ways list levels).binaryBy list levels 0

/-- An expression that begins with a token of its own. -/
def primary : Reader Node :=
  (ways list levels).primaryBy list levels

/-- A statement. -/
def statement : Reader Node :=
  (ways list levels).statementBy list levels

/-- The interface declarations and the statements of a program. -/
def sections : Reader (List Node × List Node) := do
  let declared ← (ways list levels).interfacesBy list
  let inner ← (ways list levels).statementsBy list levels
  return (declared, inner)

/-- A whole program, from its first place on. -/
def program : Except Halt Node :=
  (sections list levels 0).map fun r => rootNode list.stop r.1.1 r.1.2

end

end SamScript.Indexed
