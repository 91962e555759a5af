/-
Runtime values. Whole numbers are 64-bit words and wrap; a function is the
range of bytes its body covers, with its parameters; a foreign function is
the command line that runs it.

What a function is kept as is left open: nothing here looks into it but for
the names of its parameters. A range of bytes is what a program runs with.
-/
import SamScript.Json.Basic

namespace SamScript

/-- A function of the program: where its body is, and what it binds. -/
structure FunctionRef where
  start : Nat
  stop : Nat
  parameters : List String
  deriving DecidableEq, Repr

/-- What can stand for a function of the program in a value. -/
class Callable (φ : Type) where
  /-- The names that a call binds, in order. -/
  parameters : φ → List String

instance : Callable FunctionRef := ⟨FunctionRef.parameters⟩

/-- A value, its functions kept as `φ`. -/
inductive Value (φ : Type := FunctionRef) where
  | int (n : Int64)
  | float (x : Float)
  | string (s : String)
  | array (items : List (Value φ))
  /-- The names are distinct and in the order in which they were first given. -/
  | object (fields : List (String × Value φ))
  | function (f : φ)
  | foreign (template : String)
  | undefined
  deriving Inhabited

/-- The kinds of values. -/
inductive Kind where
  | int | float | string | array | object | function | foreign | undefined
  deriving DecidableEq, Repr

def Kind.text : Kind → String
  | .int => "int"
  | .float => "float"
  | .string => "string"
  | .array => "array"
  | .object => "object"
  | .function => "function"
  | .foreign => "foreign function"
  | .undefined => "undefined"

namespace Value

variable {φ : Type}

def kind : Value φ → Kind
  | .int _ => .int
  | .float _ => .float
  | .string _ => .string
  | .array _ => .array
  | .object _ => .object
  | .function _ => .function
  | .foreign _ => .foreign
  | .undefined => .undefined

/-- One for true and zero for false. -/
def ofBool (b : Bool) : Value φ :=
  .int (if b then 1 else 0)

/-- The double nearest to a word. -/
def promote (n : Int64) : Float :=
  if n < 0 then -(-n).toUInt64.toFloat else n.toUInt64.toFloat

/-- The number that a value is, promoted to a double. -/
def number? : Value φ → Option Float
  | .int n => some (promote n)
  | .float x => some x
  | _ => none

def isNumber (v : Value φ) : Bool :=
  v.kind = .int || v.kind = .float

def isCallable (v : Value φ) : Bool :=
  v.kind = .function || v.kind = .foreign

/-- A number other than zero; nothing else counts as true. -/
def isTruthy : Value φ → Bool
  | .int n => n ≠ 0
  | .float x => x != 0.0
  | _ => false

end Value

end SamScript
