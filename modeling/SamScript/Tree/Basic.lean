/-
Syntax trees. A node has a kind, a stretch of the source it covers, and
children, some of which are named and some mere punctuation; a child may
play a role in its parent, told by its field. The evaluator relies on
nothing else, so it takes trees that no parser built as well.
-/
import SamScript.Text.Quoted
import SamScript.Token.Basic

namespace SamScript

-- =============================================================== kinds

/-- The kinds of nodes. Punctuation, keywords and operators, and whatever a
tree from elsewhere holds, are `other`. -/
inductive NodeKind where
  | sourceFile | interfaces | interface_
  | expressionStatement | variableDeclaration | variableDeclarator | assignment | returnStatement
  | literal | number | string | stringFragment | escapeSequence
  | binaryExpression | identifier | nestedIdentifier | arrayExpression | lambdaExpression
  | callExpression | ifExpression | statementBlock
  | other (text : String)
  deriving DecidableEq, Repr, Inhabited

namespace NodeKind

/-- What a kind is called. -/
def text : NodeKind → String
  | .sourceFile => "source_file"
  | .interfaces => "interfaces"
  | .interface_ => "interface"
  | .expressionStatement => "expression_statement"
  | .variableDeclaration => "variable_declaration"
  | .variableDeclarator => "variable_declarator"
  | .assignment => "assignment"
  | .returnStatement => "return_statement"
  | .literal => "literal"
  | .number => "number"
  | .string => "string"
  | .stringFragment => "string_fragment"
  | .escapeSequence => "escape_sequence"
  | .binaryExpression => "binary_expression"
  | .identifier => "identifier"
  | .nestedIdentifier => "nested_identifier"
  | .arrayExpression => "array_expression"
  | .lambdaExpression => "lambda_expression"
  | .callExpression => "call_expression"
  | .ifExpression => "if_expression"
  | .statementBlock => "statement_block"
  | .other text => text

/-- The kinds with a meaning of their own. -/
def known : List NodeKind :=
  [.sourceFile, .interfaces, .interface_, .expressionStatement, .variableDeclaration,
    .variableDeclarator, .assignment, .returnStatement, .literal, .number, .string,
    .stringFragment, .escapeSequence, .binaryExpression, .identifier, .nestedIdentifier,
    .arrayExpression, .lambdaExpression, .callExpression, .ifExpression, .statementBlock]

/-- The kind that a name calls. -/
def ofText (name : String) : NodeKind :=
  (known.find? fun kind => kind.text = name).getD (.other name)

theorem text_ofText (name : String) : (ofText name).text = name := by
  unfold ofText
  cases h : known.find? fun kind => kind.text = name with
  | none => rfl
  | some kind => simpa using List.find?_some h

end NodeKind

/-- The roles that a child can play in its parent. -/
inductive Field where
  | path | module_ | variable_ | value | lhs | rhs | left | right | parent | name
  | condition | consequence | else_ | function | arguments | parameters | body
  | other (text : String)
  deriving DecidableEq, Repr, Inhabited

namespace Field

/-- What a field is called. -/
def text : Field → String
  | .path => "path"
  | .module_ => "module"
  | .variable_ => "variable"
  | .value => "value"
  | .lhs => "lhs"
  | .rhs => "rhs"
  | .left => "left"
  | .right => "right"
  | .parent => "parent"
  | .name => "name"
  | .condition => "condition"
  | .consequence => "consequence"
  | .else_ => "else"
  | .function => "function"
  | .arguments => "arguments"
  | .parameters => "parameters"
  | .body => "body"
  | .other text => text

/-- The fields with a meaning of their own. -/
def known : List Field :=
  [.path, .module_, .variable_, .value, .lhs, .rhs, .left, .right, .parent, .name, .condition,
    .consequence, .else_, .function, .arguments, .parameters, .body]

/-- The field that a name calls. -/
def ofText (name : String) : Field :=
  (known.find? fun field => field.text = name).getD (.other name)

theorem text_ofText (name : String) : (ofText name).text = name := by
  unfold ofText
  cases h : known.find? fun field => field.text = name with
  | none => rfl
  | some field => simpa using List.find?_some h

end Field

-- =============================================================== places

/-- A place by row and column, both from zero. -/
structure Point where
  row : Nat
  column : Nat
  deriving DecidableEq, Repr, Inhabited

/-- The stretch that a node covers, in bytes and in rows and columns. -/
structure Extent where
  startByte : Nat
  endByte : Nat
  startPoint : Point
  endPoint : Point
  deriving DecidableEq, Repr, Inhabited

/-- A place in a text as a row and a column. -/
def Position.point (p : Position) : Point :=
  ⟨p.line - 1, p.column - 1⟩

/-- The stretch of a token as the stretch of a node. -/
def Span.extent (s : Span) : Extent :=
  ⟨s.start.offset, s.stop.offset, s.start.point, s.stop.point⟩

/-- The stretch from the start of one to the end of another. -/
def Extent.through (first last : Extent) : Extent :=
  ⟨first.startByte, last.endByte, first.startPoint, last.endPoint⟩

/-- Whether a range of bytes lies in the stretch. -/
def Extent.spans (x : Extent) (start stop : Nat) : Bool :=
  x.startByte ≤ start && stop ≤ x.endByte

-- ================================================================ nodes

/-- A node of a syntax tree. -/
inductive Node where
  | mk (kind : NodeKind) (isNamed : Bool) (field : Option Field) (extent : Extent)
      (children : List Node)
  deriving Repr, Inhabited

namespace Node

def kind : Node → NodeKind
  | .mk kind _ _ _ _ => kind

/-- Whether the node is part of the structure and no mere punctuation. -/
def isNamed : Node → Bool
  | .mk _ isNamed _ _ _ => isNamed

/-- The role of the node in its parent. -/
def field : Node → Option Field
  | .mk _ _ field _ _ => field

def extent : Node → Extent
  | .mk _ _ _ extent _ => extent

def children : Node → List Node
  | .mk _ _ _ _ children => children

/-- The same node in a role. -/
def inField (field : Field) : Node → Node
  | .mk kind isNamed _ extent children => .mk kind isNamed (some field) extent children

/-- A named node without children over the stretch of a token or a piece of
one. -/
def leaf (kind : NodeKind) (span : Span) : Node :=
  .mk kind true none span.extent []

/-- The node of a keyword, an operator or a punctuation mark: its kind is
its text. -/
def anonymous (t : Token) : Node :=
  .mk (.ofText t.lexeme) false none t.span.extent []

/-- A named node over some children, from the first to the last of them. -/
def branch (kind : NodeKind) (first : Node) (rest : List Node) : Node :=
  .mk kind true none (first.extent.through ((rest.getLast?.getD first).extent)) (first :: rest)

/-- The children that are part of the structure. -/
def named (n : Node) : List Node :=
  n.children.filter isNamed

/-- The children that play a role. -/
def inRole (n : Node) (field : Field) : List Node :=
  n.children.filter fun c => c.field = some field

/-- The first child that plays a role. -/
def child? (n : Node) (field : Field) : Option Node :=
  n.children.find? fun c => c.field = some field

/-- Whether a range of bytes lies in the node. -/
def spans (n : Node) (start stop : Nat) : Bool :=
  n.extent.spans start stop

-- ================================================================= size

mutual

/-- How many nodes a tree has. -/
def size : Node → Nat
  | .mk _ _ _ _ children => 1 + sizes children

/-- How many nodes some trees have together. -/
def sizes : List Node → Nat
  | [] => 0
  | n :: rest => n.size + sizes rest

end

theorem size_eq (n : Node) : n.size = 1 + sizes n.children := by
  cases n; rfl

theorem size_le_sizes {n : Node} {ns : List Node} (h : n ∈ ns) : n.size ≤ sizes ns := by
  induction ns with
  | nil => cases h
  | cons a rest ih =>
    rw [sizes]
    rcases List.mem_cons.1 h with rfl | h
    · omega
    · have := ih h
      omega

theorem sizes_filter_le (p : Node → Bool) (ns : List Node) : sizes (ns.filter p) ≤ sizes ns := by
  induction ns with
  | nil => simp
  | cons a rest ih =>
    rw [List.filter_cons]
    split <;> simp only [sizes] <;> omega

theorem size_lt_of_mem {n c : Node} (h : c ∈ n.children) : c.size < n.size := by
  have := size_le_sizes h
  rw [size_eq n]
  omega

theorem size_lt_of_child? {n c : Node} {field : Field} (h : n.child? field = some c) :
    c.size < n.size :=
  size_lt_of_mem (List.mem_of_find?_eq_some h)

theorem sizes_named_lt (n : Node) : sizes n.named < n.size := by
  have := sizes_filter_le isNamed n.children
  rw [size_eq n]
  unfold named
  omega

theorem size_lt_of_named {n c : Node} {rest : List Node} (h : n.named = c :: rest) :
    c.size < n.size := by
  have h₁ := sizes_named_lt n
  rw [h, sizes] at h₁
  omega

theorem sizes_inRole_lt (n : Node) (field : Field) : sizes (n.inRole field) < n.size := by
  have := sizes_filter_le (fun c => c.field = some field) n.children
  rw [size_eq n]
  unfold inRole
  omega

end Node

/-- A parsed program: its root, and the bytes that its nodes cover. -/
structure Tree where
  root : Node
  source : List UInt8

/-- The bytes from one offset up to another. -/
def slice (bytes : List UInt8) (start stop : Nat) : List UInt8 :=
  (bytes.drop start).take (stop - start)

/-- The bytes that a node covers. -/
def Node.bytes (n : Node) (source : List UInt8) : List UInt8 :=
  slice source n.extent.startByte n.extent.endByte

end SamScript
