/-
Tokens: the words of a program, each with the text it stands for and the
stretch it covers. A string literal keeps its plain fragments and its escape
sequences apart and undecoded, so that they can become nodes of their own.
-/
import SamScript.Source
import SamScript.Text.Quoted

namespace SamScript

/-- The kinds of tokens. -/
inductive TokenKind where
  | number | string | identifier
  | let_ | interface_ | load | return_ | if_ | else_
  | plus | minus | star | slash | percent
  | lt | gt | le | ge | eq | ne
  | and | or
  | assign
  | lbrace | rbrace | lparen | rparen | lbracket | rbracket
  | semicolon | comma | dot | doubleArrow
  deriving DecidableEq, Repr

namespace TokenKind

/-- What a kind is called. -/
def name : TokenKind → String
  | .number => "NUMBER" | .string => "STRING" | .identifier => "IDENTIFIER"
  | .let_ => "LET" | .interface_ => "INTERFACE" | .load => "LOAD" | .return_ => "RETURN"
  | .if_ => "IF" | .else_ => "ELSE"
  | .plus => "PLUS" | .minus => "MINUS" | .star => "STAR" | .slash => "SLASH"
  | .percent => "PERCENT"
  | .lt => "LT" | .gt => "GT" | .le => "LE" | .ge => "GE" | .eq => "EQ" | .ne => "NE"
  | .and => "AND" | .or => "OR"
  | .assign => "ASSIGN"
  | .lbrace => "LBRACE" | .rbrace => "RBRACE" | .lparen => "LPAREN" | .rparen => "RPAREN"
  | .lbracket => "LBRACKET" | .rbracket => "RBRACKET"
  | .semicolon => "SEMICOLON" | .comma => "COMMA" | .dot => "DOT"
  | .doubleArrow => "DOUBLE_ARROW"

/-- The reserved word that a name is, if it is one. -/
def keyword? : List Char → Option TokenKind
  | ['l', 'e', 't'] => some .let_
  | ['i', 'n', 't', 'e', 'r', 'f', 'a', 'c', 'e'] => some .interface_
  | ['l', 'o', 'a', 'd'] => some .load
  | ['r', 'e', 't', 'u', 'r', 'n'] => some .return_
  | ['i', 'f'] => some .if_
  | ['e', 'l', 's', 'e'] => some .else_
  | _ => none

end TokenKind

/-- The two kinds of pieces of a string literal. -/
inductive PieceKind where
  | fragment
  | escape
  deriving DecidableEq, Repr

def PieceKind.name : PieceKind → String
  | .fragment => "string_fragment"
  | .escape => "escape_sequence"

/-- A piece of a string literal. -/
structure StringPart where
  kind : PieceKind
  text : String
  span : Span
  deriving DecidableEq, Repr

/-- A token. -/
structure Token where
  kind : TokenKind
  lexeme : String
  span : Span
  /-- The pieces of a string literal, none for other tokens. -/
  parts : List StringPart := []
  deriving DecidableEq, Repr

/-- A token as it is named in a listing. -/
def Token.text (t : Token) : String :=
  match t.kind with
  | .number | .identifier => s!"{t.kind.name}({Text.quoted t.lexeme})"
  | .string => s!"STRING({t.lexeme})"
  | kind => kind.name

/-- All tokens of a program and the place where it ends. -/
structure TokenList where
  tokens : List Token
  /-- The empty stretch at the end of the program. -/
  stop : Span
  deriving DecidableEq, Repr

end SamScript
