/-
Operators. Arithmetic on two whole numbers stays whole and wraps, apart from
the division, which is always a fraction; with one fraction both operands
are. What makes no sense is undefined, except that only numbers have an
order: comparing anything else fails, and so does comparing with a NaN.
-/
import SamScript.Decimal.Binary
import SamScript.Value.Basic

namespace SamScript

/-- The binary operators. -/
inductive Operator where
  | add | subtract | multiply | divide | remainder
  | equal | notEqual | less | greater | lessEqual | greaterEqual
  | and | or
  deriving DecidableEq, Repr

namespace Operator

def text : Operator → String
  | .add => "+"
  | .subtract => "-"
  | .multiply => "*"
  | .divide => "/"
  | .remainder => "%"
  | .equal => "=="
  | .notEqual => "!="
  | .less => "<"
  | .greater => ">"
  | .lessEqual => "<="
  | .greaterEqual => ">="
  | .and => "&&"
  | .or => "||"

def all : List Operator :=
  [.add, .subtract, .multiply, .divide, .remainder, .equal, .notEqual, .less, .greater,
    .lessEqual, .greaterEqual, .and, .or]

/-- The operator that a text is. -/
def ofText? (text : String) : Option Operator :=
  all.find? fun op => op.text = text

end Operator

/-- Why an operator has no value for its operands. -/
inductive OperatorFault where
  /-- Values of these kinds, or a NaN among them, have no order. -/
  | incomparable (op : Operator) (left right : Kind)
  /-- An infinite dividend has no remainder. -/
  | noRemainder
  deriving DecidableEq, Repr

namespace Value

variable {φ : Type}

-- ============================================================= equality

section

variable [DecidableEq φ]

mutual

/-- Structural equality. Numbers are equal as doubles, objects whatever the
order of their names; values of different kinds are never equal. -/
def equal : Value φ → Value φ → Bool
  | .array xs, b => match b with
    | .array ys => equalItems xs ys
    | _ => false
  | .object xs, b => match b with
    | .object ys =>
      xs.all (fun p => (Bindings.get? p.1 ys).isSome)
        && ys.all (fun p => (Bindings.get? p.1 xs).isSome)
        && equalFields xs ys
    | _ => false
  | .string s, b => match b with
    | .string t => s = t
    | _ => false
  | .function f, b => match b with
    | .function g => f = g
    | _ => false
  | .foreign s, b => match b with
    | .foreign t => s = t
    | _ => false
  | .undefined, b => b.kind = .undefined
  | .int m, b => match b.number? with
    | some y => promote m == y
    | none => false
  | .float x, b => match b.number? with
    | some y => x == y
    | none => false

/-- Arrays of one length with equal items. -/
def equalItems : List (Value φ) → List (Value φ) → Bool
  | [], ys => ys.isEmpty
  | x :: xs, ys => match ys with
    | y :: ys => equal x y && equalItems xs ys
    | [] => false

/-- Every field of the first list equals the one of that name in the second. -/
def equalFields : List (String × Value φ) → List (String × Value φ) → Bool
  | [], _ => true
  | (name, x) :: xs, ys =>
    (match Bindings.get? name ys with
      | some y => equal x y
      | none => false)
      && equalFields xs ys

end

end

-- =========================================================== arithmetic

/-- An operation on two numbers, in words where both are whole and in
doubles otherwise. -/
def arithmetic (words : Int64 → Int64 → Int64) (doubles : Float → Float → Float)
    (a b : Value φ) : Value φ :=
  match a, b with
  | .int m, .int n => .int (words m n)
  | _, _ =>
    match a.number?, b.number? with
    | some x, some y => .float (doubles x y)
    | _, _ => .undefined

/-- Sums of numbers; two strings are joined. -/
def add (a b : Value φ) : Value φ :=
  match a, b with
  | .string s, .string t => .string (s ++ t)
  | _, _ => arithmetic (· + ·) (· + ·) a b

/-- The quotient as a fraction; by zero it is undefined. -/
def divide (a b : Value φ) : Value φ :=
  match a.number?, b.number? with
  | some x, some y => if b.isTruthy then .float (x / y) else .undefined
  | _, _ => .undefined

/-- The remainder; by zero it is undefined. Of two whole numbers it has the
sign of the dividend, otherwise it is never negative. -/
def remainder (a b : Value φ) : Except OperatorFault (Value φ) :=
  match a, b with
  | .int m, .int n => .ok (if n = 0 then .undefined else .int (m % n))
  | _, _ =>
    match a.number?, b.number? with
    | some x, some y =>
      if b.isTruthy then
        match Decimal.remainder? x y with
        | none => .error .noRemainder
        | some r => .ok (.float (if r < 0.0 then r + y.abs else r))
      else .ok .undefined
    | _, _ => .ok .undefined

-- ================================================= comparison and logic

/-- Whether two doubles are in the order that an operator asks for. -/
def ordered (op : Operator) (x y : Float) : Bool :=
  match op with
  | .less => x < y
  | .greater => x > y
  | .lessEqual => x ≤ y
  | _ => x ≥ y

/-- Compares two numbers. -/
def compare (op : Operator) (a b : Value φ) : Except OperatorFault (Value φ) :=
  match a.number?, b.number? with
  | some x, some y =>
    if x.isNaN || y.isNaN then .error (.incomparable op a.kind b.kind)
    else .ok (ofBool (ordered op x y))
  | _, _ => .error (.incomparable op a.kind b.kind)

/-- Joins two truth values, if both operands are numbers. -/
def logical (join : Bool → Bool → Bool) (a b : Value φ) : Value φ :=
  if a.isNumber && b.isNumber then ofBool (join a.isTruthy b.isTruthy) else .undefined

end Value

/-- The value of an operator. -/
def Operator.apply {φ : Type} [DecidableEq φ] (op : Operator) (a b : Value φ) :
    Except OperatorFault (Value φ) :=
  match op with
  | .add => .ok (a.add b)
  | .subtract => .ok (Value.arithmetic (· - ·) (· - ·) a b)
  | .multiply => .ok (Value.arithmetic (· * ·) (· * ·) a b)
  | .divide => .ok (a.divide b)
  | .remainder => a.remainder b
  | .equal => .ok (.ofBool (a.equal b))
  | .notEqual => .ok (.ofBool (!a.equal b))
  | .less | .greater | .lessEqual | .greaterEqual => a.compare op b
  | .and => .ok (Value.logical (· && ·) a b)
  | .or => .ok (Value.logical (· || ·) a b)

end SamScript
