/-
Trees as text: the named structure in nested parentheses, or an outline with
one line per named node.
-/
import SamScript.Tree.Basic

namespace SamScript.Node

-- ========================================================== parentheses

/-- The name of a role in front of what plays it. -/
def labelled (field : Option Field) (text : String) : String :=
  match field with
  | some field => if field.text.isEmpty then text else field.text ++ ": " ++ text
  | none => text

mutual

/-- The named structure of a tree in parentheses. -/
def sexp : Node → String
  | .mk kind _ _ _ children =>
    "(" ++ " ".intercalate (kind.text :: sexps children) ++ ")"

/-- The named ones of some trees, each after its role. -/
def sexps : List Node → List String
  | [] => []
  | n :: rest => if n.isNamed then labelled n.field (sexp n) :: sexps rest else sexps rest

end

-- ============================================================== outline

/-- What a node's bytes spell, bytes that spell nothing replaced. -/
def text (n : Node) (source : List UInt8) : String :=
  String.ofList (Utf8.decodeLossy (n.bytes source))

/-- The line of a node: its role and its kind, and its text if no named
structure is below it. -/
def outlineLine (source : List UInt8) (level : Nat) (n : Node) : String :=
  let indent := String.ofList (List.replicate (2 * level) ' ')
  let shown := if n.named.isEmpty then " " ++ Text.quoted (n.text source) else ""
  indent ++ labelled n.field n.kind.text ++ shown

mutual

/-- The lines of a tree, each level two blanks further in. -/
def outlineFrom (source : List UInt8) (level : Nat) : Node → List String
  | n@(.mk _ _ _ _ children) =>
    outlineLine source level n :: outlinesFrom source (level + 1) children

def outlinesFrom (source : List UInt8) (level : Nat) : List Node → List String
  | [] => []
  | n :: rest =>
    if n.isNamed then outlineFrom source level n ++ outlinesFrom source level rest
    else outlinesFrom source level rest

end

/-- A tree as an outline. -/
def outline (source : List UInt8) (n : Node) : String :=
  "\n".intercalate (outlineFrom source 0 n)

/-- A node in one line, by its kind and its place. -/
def summary (n : Node) : String :=
  let point (p : Point) := s!"({p.row}, {p.column})"
  s!"<Node type={n.kind.text} start_point={point n.extent.startPoint} end_point={point n.extent.endPoint}>"

end SamScript.Node
