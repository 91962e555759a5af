/-
Writing JSON, in one line with a blank after each comma and colon, or over
several lines with two blanks per level. Only printable ASCII is written as
it is; beyond the first plane a character takes two escapes.
-/
import SamScript.Decimal.Notation
import SamScript.Json.Basic
import SamScript.Text.Quoted

namespace SamScript.Json

/-- A code unit as an escape. -/
def unitEscape (unit : Nat) : List Char :=
  '\\' :: 'u' :: Text.hex 4 unit

/-- How a character stands in a string. -/
def stringChar (c : Char) : List Char :=
  if c = '"' ∨ c = '\\' then ['\\', c]
  else if c = '\n' then ['\\', 'n']
  else if c = '\r' then ['\\', 'r']
  else if c = '\t' then ['\\', 't']
  else if c = '\x08' then ['\\', 'b']
  else if c = '\x0c' then ['\\', 'f']
  else if 0x20 ≤ c.toNat ∧ c.toNat < 0x7F then [c]
  else if c.toNat < 0x10000 then unitEscape c.toNat
  else
    let beyond := c.toNat - 0x10000
    unitEscape (0xD800 + beyond / 0x400) ++ unitEscape (0xDC00 + beyond % 0x400)

/-- A string in its quotes. -/
def quote (text : String) : String :=
  String.ofList ('"' :: text.toList.flatMap stringChar ++ ['"'])

/-- Everything but arrays and objects. -/
def writeLeaf : Json → String
  | .bool true => "true"
  | .bool false => "false"
  | .int n => toString n
  | .float x => Decimal.write .json x
  | .string s => quote s
  | _ => "null"

mutual

/-- A value in one line. -/
def write : Json → String
  | .array items => "[" ++ ", ".intercalate (writeItems items) ++ "]"
  | .object members => "\x7b" ++ ", ".intercalate (writeMembers members) ++ "\x7d"
  | leaf => writeLeaf leaf

def writeItems : List Json → List String
  | [] => []
  | item :: rest => write item :: writeItems rest

def writeMembers : List (String × Json) → List String
  | [] => []
  | (name, value) :: rest => (quote name ++ ": " ++ write value) :: writeMembers rest

end

/-- A line break and the blanks of a level. -/
def newLine (level : Nat) : String :=
  String.ofList ('\n' :: List.replicate (2 * level) ' ')

/-- Parts between brackets, each on a line of its own. -/
def spread (level : Nat) (opening closing : String) (parts : List String) : String :=
  if parts.isEmpty then opening ++ closing
  else
    opening ++ newLine (level + 1) ++ ("," ++ newLine (level + 1)).intercalate parts
      ++ newLine level ++ closing

mutual

/-- A value over several lines, the first of which stands at `level`. -/
def writeAt (level : Nat) : Json → String
  | .array items => spread level "[" "]" (itemsAt (level + 1) items)
  | .object members => spread level "\x7b" "\x7d" (membersAt (level + 1) members)
  | leaf => writeLeaf leaf

def itemsAt (level : Nat) : List Json → List String
  | [] => []
  | item :: rest => writeAt level item :: itemsAt level rest

def membersAt (level : Nat) : List (String × Json) → List String
  | [] => []
  | (name, value) :: rest =>
    (quote name ++ ": " ++ writeAt level value) :: membersAt level rest

end

/-- A value over several lines. -/
def writeIndented (value : Json) : String :=
  writeAt 0 value

end SamScript.Json
