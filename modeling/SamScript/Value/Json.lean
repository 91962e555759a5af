/-
Values from JSON and to JSON. Truth values become one and zero, a whole
number beyond 64 bits becomes a double, and null is undefined; on the way
back a function is written as its text.
-/
import SamScript.Decimal.Read
import SamScript.Value.Render

namespace SamScript.Value

variable {φ : Type}

/-- A whole number as a value: a word if it fits, else the nearest double;
nothing if that is infinite. -/
def ofInteger? (n : Int) : Option (Value φ) :=
  if Int64.minValue.toInt ≤ n ∧ n ≤ Int64.maxValue.toInt then some (.int (Int64.ofInt n))
  else (Decimal.ofInteger? n).map .float

mutual

/-- The value of a JSON value; nothing if it holds a whole number beyond the
largest double. -/
def ofJson? : Json → Option (Value φ)
  | .null => some .undefined
  | .bool b => some (ofBool b)
  | .int n => ofInteger? n
  | .float x => some (.float x)
  | .string s => some (.string s)
  | .array items => (ofJsonItems? items).map .array
  | .object members => (ofJsonMembers? members).map .object

def ofJsonItems? : List Json → Option (List (Value φ))
  | [] => some []
  | j :: rest =>
    match ofJson? j with
    | none => none
    | some v => (ofJsonItems? rest).map (v :: ·)

def ofJsonMembers? : List (String × Json) → Option (List (String × Value φ))
  | [] => some []
  | (name, j) :: rest =>
    match ofJson? j with
    | none => none
    | some v => (ofJsonMembers? rest).map ((name, v) :: ·)

end

variable [Callable φ]

mutual

/-- A value as JSON. -/
def toJson : Value φ → Json
  | .int n => .int n.toInt
  | .float x => .float x
  | .string s => .string s
  | .array items => .array (toJsonItems items)
  | .object fields => .object (toJsonFields fields)
  | .undefined => .null
  | v => .string v.render

def toJsonItems : List (Value φ) → List Json
  | [] => []
  | v :: rest => toJson v :: toJsonItems rest

def toJsonFields : List (String × Value φ) → List (String × Json)
  | [] => []
  | (name, v) :: rest => (name, toJson v) :: toJsonFields rest

end

end SamScript.Value
