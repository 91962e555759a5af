/-
The text of a value, as it is printed and handed to programs. A string on
its own is its own text; inside an array or an object it is quoted, which
keeps an array of numbers, strings and arrays readable as a literal.
-/
import SamScript.Decimal.Notation
import SamScript.Value.Basic

namespace SamScript.Value

variable {φ : Type} [Callable φ]

/-- How a character stands in a quoted string. -/
def quotedChar (c : Char) : List Char :=
  if c = '\\' ∨ c = '"' then ['\\', c]
  else if c = '\n' then ['\\', 'n']
  else [c]

/-- A string in double quotes. -/
def quote (text : String) : String :=
  String.ofList ('"' :: text.toList.flatMap quotedChar ++ ['"'])

/-- Everything but arrays and objects. -/
def renderLeaf : Value φ → String
  | .int n => toString n.toInt
  | .float x => Decimal.write .plain x
  | .string s => quote s
  | .function f => "<function(" ++ ", ".intercalate (Callable.parameters f) ++ ")>"
  | .foreign template => "<foreign `" ++ template ++ "`>"
  | _ => "undefined"

mutual

/-- A value inside another one. -/
def renderNested : Value φ → String
  | .array items => "[" ++ ", ".intercalate (renderItems items) ++ "]"
  | .object fields => "\x7b" ++ ", ".intercalate (renderFields fields) ++ "\x7d"
  | leaf => renderLeaf leaf

def renderItems : List (Value φ) → List String
  | [] => []
  | v :: rest => renderNested v :: renderItems rest

def renderFields : List (String × Value φ) → List String
  | [] => []
  | (name, v) :: rest => (quote name ++ ": " ++ renderNested v) :: renderFields rest

end

/-- A value on its own. -/
def render : Value φ → String
  | .string s => s
  | v => renderNested v

end SamScript.Value
