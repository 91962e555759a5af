/-
From tokens to a tree, one function per production of the grammar. Each
takes the tokens from some place on and returns the node with the tokens
left, fewer than it was given, so the productions call each other on ever
shorter lists and end.

Parentheses that only group leave no trace in the tree. A `-` that touches
the number after it belongs to the number. What stands in parentheses is the
head of a lambda exactly when names and commas, a closing parenthesis and an
arrow follow; that is decided before anything is built.
-/
import SamScript.Reading
import SamScript.Token.Lexer
import SamScript.Tree.Basic

namespace SamScript

-- =============================================================== failures

/-- What the parser looks for, where it can be missing. -/
inductive Expected where
  | expression | identifier | attributeName | parameterName | variableName | interfaceName
  | manifestPath | load | openAfterIf | openBrace | closeBrace | closeParen | closeBracket | arrow
  | semicolon
  deriving DecidableEq, Repr

def Expected.text : Expected → String
  | .expression => "expression"
  | .identifier => "identifier"
  | .attributeName => "attribute name"
  | .parameterName => "parameter name"
  | .variableName => "variable name"
  | .interfaceName => "interface name"
  | .manifestPath => "manifest path string"
  | .load => "'load'"
  | .openAfterIf => "'(' after 'if'"
  | .openBrace => "'\x7b'"
  | .closeBrace => "'\x7d'"
  | .closeParen => "')'"
  | .closeBracket => "']'"
  | .arrow => "'=>'"
  | .semicolon => "';'"

/-- Why tokens are no program. -/
inductive ParseFault where
  | unexpectedToken (expected : Expected) (found : String)
  | unexpectedEnd (expected : Expected)
  | tooDeep
  deriving DecidableEq, Repr

/-- A fault and where it is. -/
structure ParseError where
  fault : ParseFault
  span : Span
  deriving DecidableEq, Repr

namespace ParseError

def code (e : ParseError) : String :=
  match e.fault with
  | .unexpectedToken _ _ => "E101"
  | .unexpectedEnd _ => "E102"
  | .tooDeep => "E103"

def message (e : ParseError) : String :=
  match e.fault with
  | .unexpectedToken expected found => s!"expected {expected.text}, found '{found}'"
  | .unexpectedEnd expected => s!"unexpected end of input, expected {expected.text}"
  | .tooDeep => "expression is nested too deeply"

/-- The report of a failure in a text with these lines. The end of the text
has no line to show. -/
def diagnostic (e : ParseError) (lines : List String) : Diagnostic :=
  { code := e.code
    message := e.message
    span := some e.span
    sourceLine := match e.fault with
      | .unexpectedEnd _ => none
      | _ => Lines.line? lines e.span.start.line
    hints := match e.fault with
      | .tooDeep => ["split the expression into smaller let declarations"]
      | _ => [] }

end ParseError

namespace Parser

/-- What was read from the front of some tokens. -/
abbrev Taken (bound : Nat) (α : Type) := Reading Token α bound

/-- Something else was expected at the front of some tokens; `stop` is where
the program ends. -/
def missing (stop : Span) (expected : Expected) : List Token → ParseError
  | [] => ⟨.unexpectedEnd expected, stop⟩
  | t :: _ => ⟨.unexpectedToken expected t.lexeme, t.span⟩

/-- Takes a token of a kind. -/
def expect (stop : Span) (kind : TokenKind) (expected : Expected) (ts : List Token) :
    Except ParseError (Taken ts.length Token) :=
  match ts with
  | t :: rest =>
    if t.kind = kind then .ok ⟨t, rest, Nat.lt_succ_self _⟩
    else .error (missing stop expected (t :: rest))
  | [] => .error (missing stop expected [])

-- ================================================================ leaves

/-- How tightly the binary operators bind. -/
def precedence? : TokenKind → Option Nat
  | .or => some 1
  | .and => some 2
  | .eq | .ne => some 3
  | .lt | .gt | .le | .ge => some 4
  | .plus | .minus => some 5
  | .star | .slash | .percent => some 6
  | _ => none

/-- The node of a string literal: a quote, its pieces, a quote. -/
def stringNode (t : Token) : Node :=
  let start := t.span.start
  let stop := t.span.stop
  let quote (c : Option Char) (first last : Position) : Node :=
    .mk (.ofText (String.ofList c.toList)) false none (Span.extent ⟨first, last, none⟩) []
  let opening := quote t.lexeme.toList.head? start
    { start with column := start.column + 1, offset := start.offset + 1 }
  let closing := quote t.lexeme.toList.getLast?
    { stop with column := stop.column - 1, offset := stop.offset - 1 } stop
  let pieces := t.parts.map fun part =>
    match part.kind with
    | .fragment => Node.leaf .stringFragment part.span
    | .escape => Node.leaf .escapeSequence part.span
  .branch .string opening (pieces ++ [closing])

/-- The node of a number, which a sign in front may belong to. -/
def numberNode (span : Span) : Node :=
  .branch .literal (.leaf .number span) []

/-- Whether no space is between two tokens. -/
def touches (a b : Token) : Bool :=
  a.span.stop.offset = b.span.start.offset

/-- The nodes of a lambda's parameters after a name, up to the arrow, if that
is what follows. -/
def lambdaTail? : List Token → Option (List Node × List Token)
  | a :: b :: rest =>
    if a.kind = .comma ∧ b.kind = .identifier then
      (lambdaTail? rest).map fun (nodes, rest) =>
        (.anonymous a :: (Node.leaf .identifier b.span).inField .parameters :: nodes, rest)
    else if a.kind = .rparen ∧ b.kind = .doubleArrow then
      some ([.anonymous a, .anonymous b], rest)
    else none
  | _ => none

/-- The nodes of a lambda's head after its opening parenthesis, if that is
what follows. -/
def lambdaHead? : List Token → Option (List Node × List Token)
  | t :: rest =>
    if t.kind = .identifier then
      (lambdaTail? rest).map fun (nodes, rest) =>
        ((Node.leaf .identifier t.span).inField .parameters :: nodes, rest)
    else if t.kind = .rparen then lambdaTail? (t :: rest)
    else none
  | [] => none

theorem length_of_lambdaTail? {ts rest : List Token} {nodes : List Node}
    (h : lambdaTail? ts = some (nodes, rest)) : rest.length < ts.length := by
  fun_induction lambdaTail? ts generalizing nodes rest with
  | case1 a b r _ ih =>
    obtain ⟨⟨ns, t⟩, hp, he⟩ := Option.map_eq_some_iff.1 h
    cases he
    have := ih hp
    simp only [List.length_cons]
    omega
  | case2 =>
    cases h
    simp only [List.length_cons]
    omega
  | case3 => cases h
  | case4 => cases h

theorem length_of_lambdaHead? {ts rest : List Token} {nodes : List Node}
    (h : lambdaHead? ts = some (nodes, rest)) : rest.length < ts.length := by
  unfold lambdaHead? at h
  split at h
  · split at h
    · obtain ⟨⟨ns, t⟩, hp, he⟩ := Option.map_eq_some_iff.1 h
      cases he
      have := length_of_lambdaTail? hp
      simp only [List.length_cons]
      omega
    · split at h
      · exact length_of_lambdaTail? h
      · cases h
  · cases h

-- ====================================================== ends of statements

/-- The last token of `ts` before `rest`, where `rest` is the end of `ts`. -/
def lastBefore (ts rest : List Token) : Option Token :=
  (ts.take (ts.length - rest.length)).getLast?

/-- Takes the semicolon after a statement that began at `ts` and left `rest`.
It may be missing before a closing brace, at the end of the program, and
after a statement that ends in a closing brace. -/
def finish (stop : Span) (ts rest : List Token) (h : rest.length < ts.length) :
    Except ParseError (Taken ts.length (List Node)) :=
  match rest with
  | [] => .ok ⟨[], [], h⟩
  | t :: after =>
    if t.kind = .semicolon then .ok ⟨[.anonymous t], after, by simp only [List.length_cons] at h; omega⟩
    else if t.kind = .rbrace ∨ (lastBefore ts (t :: after)).any (·.kind = .rbrace) then
      .ok ⟨[], t :: after, h⟩
    else .error (missing stop .semicolon (t :: after))

-- =========================================================== productions

mutual

/-- An expression. -/
def expression (stop : Span) (ts : List Token) : Except ParseError (Taken ts.length Node) :=
  binary stop 0 ts
termination_by 8 * ts.length + 3
decreasing_by all_goals omega

/-- An operand and the operators of at least some precedence that follow. -/
def binary (stop : Span) (least : Nat) (ts : List Token) : Except ParseError (Taken ts.length Node) := do
  let ⟨left, rest, h⟩ ← postfixExpr stop ts
  operators stop least ts.length left rest h
termination_by 8 * ts.length + 2
decreasing_by all_goals omega

/-- The operators of at least some precedence after a left operand; they
group to the left. -/
def operators (stop : Span) (least bound : Nat) (left : Node) (ts : List Token)
    (h : ts.length < bound) : Except ParseError (Taken bound Node) :=
  match ts with
  | [] => .ok ⟨left, [], h⟩
  | op :: rest =>
    match precedence? op.kind with
    | none => .ok ⟨left, op :: rest, h⟩
    | some p =>
      if least ≤ p then do
        let ⟨right, rest', h'⟩ ← binary stop (p + 1) rest
        operators stop least bound
          (.branch .binaryExpression (left.inField .left)
            [.anonymous op, right.inField .right])
          rest' (by simp only [List.length_cons] at h; omega)
      else .ok ⟨left, op :: rest, h⟩
termination_by 8 * ts.length
decreasing_by all_goals ((try simp only [List.length_cons] at *); omega)

/-- An operand: a primary expression with calls and attributes behind it. -/
def postfixExpr (stop : Span) (ts : List Token) : Except ParseError (Taken ts.length Node) := do
  let ⟨first, rest, h⟩ ← primary stop ts
  suffixes stop ts.length first rest h
termination_by 8 * ts.length + 1
decreasing_by all_goals omega

/-- The calls and attributes behind an expression. -/
def suffixes (stop : Span) (bound : Nat) (before : Node) (ts : List Token)
    (h : ts.length < bound) : Except ParseError (Taken bound Node) :=
  match ts with
  | [] => .ok ⟨before, [], h⟩
  | t :: rest =>
    if t.kind = .lparen then do
      let ⟨items, rest', h'⟩ ← listed stop (some .arguments) .rparen .closeParen rest
      suffixes stop bound
        (.branch .callExpression (before.inField .function) (.anonymous t :: items))
        rest' (by simp only [List.length_cons] at h; omega)
    else if t.kind = .dot then do
      let ⟨name, rest', h'⟩ ← expect stop .identifier .attributeName rest
      suffixes stop bound
        (.branch .nestedIdentifier (before.inField .parent)
          [.anonymous t, (Node.leaf .identifier name.span).inField .name])
        rest' (by simp only [List.length_cons] at h; omega)
    else .ok ⟨before, t :: rest, h⟩
termination_by 8 * ts.length
decreasing_by all_goals ((try simp only [List.length_cons] at *); omega)

/-- An expression that begins with a token of its own. -/
def primary (stop : Span) (ts : List Token) : Except ParseError (Taken ts.length Node) :=
  match ts with
  | [] => .error (missing stop .expression [])
  | t :: rest =>
    match t.kind with
    | .number => .ok ⟨numberNode t.span, rest, Nat.lt_succ_self _⟩
    | .minus =>
      match rest with
      | n :: after =>
        if n.kind = .number ∧ touches t n then
          .ok ⟨numberNode { t.span with stop := n.span.stop }, after, by
            simp only [List.length_cons]; omega⟩
        else .error (missing stop .expression (t :: n :: after))
      | [] => .error (missing stop .expression [t])
    | .string => .ok ⟨.branch .literal (stringNode t) [], rest, Nat.lt_succ_self _⟩
    | .identifier => .ok ⟨.leaf .identifier t.span, rest, Nat.lt_succ_self _⟩
    | .lparen =>
      match hl : lambdaHead? rest with
      | some (head, after) => do
        have h₀ := length_of_lambdaHead? hl
        let ⟨body, after', h'⟩ ← block stop after
        return ⟨.branch .lambdaExpression (.anonymous t) (head ++ [body.inField .body]), after', by
          simp only [List.length_cons]; omega⟩
      | none => do
        let ⟨inner, rest', h'⟩ ← expression stop rest
        let ⟨_, after, h''⟩ ← expect stop .rparen .closeParen rest'
        return ⟨inner, after, by simp only [List.length_cons]; omega⟩
    | .lbracket => do
      let ⟨items, rest', h'⟩ ← listed stop none .rbracket .closeBracket rest
      return ⟨.branch .arrayExpression (.anonymous t) items, rest', by
        simp only [List.length_cons]; omega⟩
    | .if_ => do
      let r ← conditional stop t rest
      return r.widen (Nat.le_succ _)
    | _ => .error (missing stop .expression (t :: rest))
termination_by 8 * ts.length
decreasing_by all_goals (simp only [List.length_cons]; omega)

/-- The items of an array or a call, and what closes them; a comma may come
before that. -/
def listed (stop : Span) (field : Option Field) (close : TokenKind) (expected : Expected)
    (ts : List Token) : Except ParseError (Taken ts.length (List Node)) :=
  match ts with
  | t :: rest =>
    if t.kind = close then .ok ⟨[.anonymous t], rest, Nat.lt_succ_self _⟩
    else items stop field close expected (t :: rest)
  | [] => items stop field close expected []
termination_by 8 * ts.length + 5
decreasing_by all_goals omega

/-- One item at least, and what closes the list. -/
def items (stop : Span) (field : Option Field) (close : TokenKind) (expected : Expected)
    (ts : List Token) : Except ParseError (Taken ts.length (List Node)) := do
  let ⟨item, rest, h⟩ ← expression stop ts
  let item := field.elim item fun field => item.inField field
  match rest, h with
  | [], _ => .error (missing stop expected [])
  | t :: after, h =>
    if t.kind = .comma then do
      let ⟨more, rest', h'⟩ ← listed stop field close expected after
      return ⟨item :: .anonymous t :: more, rest', by simp only [List.length_cons] at h; omega⟩
    else if t.kind = close then return ⟨[item, .anonymous t], after, by simp only [List.length_cons] at h; omega⟩
    else .error (missing stop expected (t :: after))
termination_by 8 * ts.length + 4
decreasing_by
  · omega
  · simp only [List.length_cons] at h; omega

/-- The rest of an if expression after its keyword `t`. -/
def conditional (stop : Span) (t : Token) (ts : List Token) : Except ParseError (Taken ts.length Node) := do
  let ⟨opening, rest₁, h₁⟩ ← expect stop .lparen .openAfterIf ts
  let ⟨condition, rest₂, h₂⟩ ← expression stop rest₁
  let ⟨closing, rest₃, h₃⟩ ← expect stop .rparen .closeParen rest₂
  let ⟨consequence, rest₄, h₄⟩ ← block stop rest₃
  let parts := [.anonymous opening, condition.inField .condition, .anonymous closing,
    consequence.inField .consequence]
  let ⟨alternative, rest₅, h₅⟩ ← alternative? stop ts.length rest₄ (by omega)
  return ⟨.branch .ifExpression (.anonymous t) (parts ++ alternative), rest₅, h₅⟩
termination_by 8 * ts.length + 1
decreasing_by all_goals omega

/-- The other arm of an if expression, if there is one. -/
def alternative? (stop : Span) (bound : Nat) (ts : List Token) (h : ts.length < bound) :
    Except ParseError (Taken bound (List Node)) :=
  match ts with
  | t :: rest =>
    if t.kind = .else_ then
      match rest with
      | i :: after =>
        if i.kind = .if_ then do
          let ⟨inner, rest', h'⟩ ← conditional stop i after
          return ⟨[.anonymous t, inner.inField .else_], rest', by simp only [List.length_cons] at h; omega⟩
        else do
          let ⟨inner, rest', h'⟩ ← block stop (i :: after)
          return ⟨[.anonymous t, inner.inField .else_], rest', by simp only [List.length_cons] at h h'; omega⟩
      | [] => .error (missing stop .openBrace [])
    else .ok ⟨[], t :: rest, h⟩
  | [] => .ok ⟨[], [], h⟩
termination_by 8 * ts.length + 1
decreasing_by all_goals ((try simp only [List.length_cons] at *); omega)

/-- Statements in braces. -/
def block (stop : Span) (ts : List Token) : Except ParseError (Taken ts.length Node) := do
  let ⟨opening, rest, h⟩ ← expect stop .lbrace .openBrace ts
  let ⟨inner, rest', h'⟩ ← blockItems stop rest
  return ⟨.branch .statementBlock (.anonymous opening) inner, rest', by omega⟩
termination_by 8 * ts.length
decreasing_by all_goals omega

/-- The statements of a block and its closing brace. -/
def blockItems (stop : Span) (ts : List Token) : Except ParseError (Taken ts.length (List Node)) :=
  match ts with
  | [] => .error (missing stop .closeBrace [])
  | t :: rest =>
    if t.kind = .rbrace then .ok ⟨[.anonymous t], rest, Nat.lt_succ_self _⟩
    else do
      let ⟨first, rest₁, h₁⟩ ← statement stop (t :: rest)
      let ⟨more, rest₂, h₂⟩ ← blockItems stop rest₁
      return ⟨first :: more, rest₂, by omega⟩
termination_by 8 * ts.length + 7
decreasing_by
  all_goals
    simp only [List.length_cons] at *
    omega

/-- A statement with its semicolon. -/
def statement (stop : Span) (ts : List Token) : Except ParseError (Taken ts.length Node) :=
  match ts with
  | [] => .error (missing stop .expression [])
  | t :: rest =>
    match t.kind with
    | .let_ => do
      let ⟨inner, rest₁, h₁⟩ ← declarators stop rest
      let ⟨semicolon, rest₂, h₂⟩ ← finish stop (t :: rest) rest₁ (by simp only [List.length_cons]; omega)
      return ⟨.branch .variableDeclaration (.anonymous t) (inner ++ semicolon), rest₂, h₂⟩
    | .return_ =>
      match rest with
      | [] => .ok ⟨.branch .returnStatement (.anonymous t) [], [], Nat.lt_succ_self _⟩
      | u :: after =>
        if u.kind = .semicolon ∨ u.kind = .rbrace then do
          let ⟨semicolon, rest₂, h₂⟩ ← finish stop (t :: u :: after) (u :: after) (Nat.lt_succ_self _)
          return ⟨.branch .returnStatement (.anonymous t) semicolon, rest₂, h₂⟩
        else do
          let ⟨value, rest₁, h₁⟩ ← expression stop (u :: after)
          let ⟨semicolon, rest₂, h₂⟩ ← finish stop (t :: u :: after) rest₁ (by simp only [List.length_cons] at h₁ ⊢; omega)
          return ⟨.branch .returnStatement (.anonymous t) (value.inField .value :: semicolon),
            rest₂, h₂⟩
    | _ => plainStatement stop (t :: rest)
termination_by 8 * ts.length + 6
decreasing_by
  all_goals simp only [List.length_cons]
  all_goals omega

/-- An assignment, or an expression on its own. -/
def plainStatement (stop : Span) (ts : List Token) : Except ParseError (Taken ts.length Node) :=
  match ts with
  | t :: u :: rest =>
    if t.kind = .identifier ∧ u.kind = .assign then do
      let ⟨value, rest₁, h₁⟩ ← expression stop rest
      let ⟨semicolon, rest₂, h₂⟩ ← finish stop (t :: u :: rest) rest₁ (by simp only [List.length_cons]; omega)
      return ⟨.branch .assignment ((Node.leaf .identifier t.span).inField .lhs)
        (.anonymous u :: value.inField .rhs :: semicolon), rest₂, h₂⟩
    else expressionStatement stop (t :: u :: rest)
  | ts => expressionStatement stop ts
termination_by 8 * ts.length + 5
decreasing_by all_goals ((try simp only [List.length_cons] at *); omega)

/-- An expression on its own. -/
def expressionStatement (stop : Span) (ts : List Token) : Except ParseError (Taken ts.length Node) := do
  let ⟨inner, rest₁, h₁⟩ ← expression stop ts
  let ⟨semicolon, rest₂, h₂⟩ ← finish stop ts rest₁ h₁
  return ⟨.branch .expressionStatement inner semicolon, rest₂, h₂⟩
termination_by 8 * ts.length + 4
decreasing_by all_goals omega

/-- The variables of a declaration, with commas between them. -/
def declarators (stop : Span) (ts : List Token) : Except ParseError (Taken ts.length (List Node)) := do
  let ⟨first, rest, h⟩ ← declarator stop ts
  match rest, h with
  | t :: after, h =>
    if t.kind = .comma then do
      let ⟨more, rest', h'⟩ ← declarators stop after
      return ⟨first :: .anonymous t :: more, rest', by simp only [List.length_cons] at h; omega⟩
    else return ⟨[first], t :: after, h⟩
  | [], h => return ⟨[first], [], h⟩
termination_by 8 * ts.length + 2
decreasing_by
  · omega
  · simp only [List.length_cons] at h; omega

/-- A variable with its value, if it is given one. -/
def declarator (stop : Span) (ts : List Token) : Except ParseError (Taken ts.length Node) := do
  let ⟨name, rest, h⟩ ← expect stop .identifier .variableName ts
  let variable_ := (Node.leaf .identifier name.span).inField .variable_
  match rest, h with
  | t :: after, h =>
    if t.kind = .assign then do
      let ⟨value, rest', h'⟩ ← expression stop after
      return ⟨.branch .variableDeclarator variable_ [.anonymous t, value.inField .value], rest', by
        simp only [List.length_cons] at h; omega⟩
    else return ⟨.branch .variableDeclarator variable_ [], t :: after, h⟩
  | [], h => return ⟨.branch .variableDeclarator variable_ [], [], h⟩
termination_by 8 * ts.length + 1
decreasing_by simp only [List.length_cons] at h; omega

end

-- =============================================================== programs

/-- An interface declaration after its keyword `t`. -/
def interfaceDecl (stop : Span) (t : Token) (ts : List Token) : Except ParseError (Taken (ts.length + 1) Node) := do
  let ⟨path, rest₁, h₁⟩ ← expect stop .string .manifestPath ts
  let ⟨load, rest₂, h₂⟩ ← expect stop .load .load rest₁
  let ⟨name, rest₃, h₃⟩ ← expect stop .identifier .interfaceName rest₂
  let ⟨semicolon, rest₄, h₄⟩ ← finish stop (t :: ts) rest₃ (by simp only [List.length_cons]; omega)
  return ⟨.branch .interface_ (.anonymous t)
    ((stringNode path).inField .path :: .anonymous load
      :: (Node.leaf .identifier name.span).inField .module_ :: semicolon), rest₄, h₄⟩

/-- The interface declarations that a program begins with. -/
def interfaces (stop : Span) (ts : List Token) : Except ParseError (List Node × List Token) :=
  match ts with
  | t :: rest =>
    if t.kind = .interface_ then do
      let ⟨first, rest', _⟩ ← interfaceDecl stop t rest
      let (more, rest'') ← interfaces stop rest'
      return (first :: more, rest'')
    else .ok ([], t :: rest)
  | [] => .ok ([], [])
termination_by ts.length
decreasing_by all_goals ((try simp only [List.length_cons] at *); omega)

/-- Statements up to the end of the program. -/
def statements (stop : Span) (ts : List Token) : Except ParseError (List Node) :=
  match ts with
  | [] => .ok []
  | t :: rest => do
    let ⟨first, rest', _shorter⟩ ← statement stop (t :: rest)
    let more ← statements stop rest'
    return first :: more
termination_by ts.length
decreasing_by
  simp only [List.length_cons] at *
  omega

/-- The whole of a program: its interface declarations under one node, if
there are any, and its statements. The root covers the text from its very
start to its very end. -/
def program (list : TokenList) : Except ParseError Node := do
  let (declared, rest) ← interfaces list.stop list.tokens
  let inner ← statements list.stop rest
  let first := match declared with
    | [] => []
    | d :: ds => [.branch .interfaces d ds]
  return .mk .sourceFile true none (Extent.through ⟨0, 0, ⟨0, 0⟩, ⟨0, 0⟩⟩ list.stop.extent)
    (first ++ inner)

-- ================================================================= depth

/-- How deep the brackets of some tokens nest at most, from a depth on, and
where that is first reached; an if after an else counts as a bracket that
stays open. -/
def deepest (depth : Nat) (found : Nat × Option Token) : List Token → Nat × Option Token
  | [] => found
  | t :: rest =>
    let opened := if depth + 1 > found.1 then (depth + 1, some t) else found
    match t.kind, rest with
    | .lparen, _ | .lbracket, _ | .lbrace, _ => deepest (depth + 1) opened rest
    | .rparen, _ | .rbracket, _ | .rbrace, _ => deepest (depth - 1) found rest
    | .else_, i :: _ =>
      if i.kind = .if_ then deepest (depth + 1) opened rest else deepest depth found rest
    | _, _ => deepest depth found rest

/-- The whole of a program whose brackets may nest `limit` deep; with no
limit, as deep as they like. -/
def programWithin (limit : Option Nat) (list : TokenList) : Except ParseError Node :=
  match limit, deepest 0 (0, none) list.tokens with
  | some limit, (depth, some t) =>
    if depth > limit then .error ⟨.tooDeep, t.span⟩ else program list
  | _, _ => program list

end Parser

end SamScript
