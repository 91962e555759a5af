/-
What the literals of a program stand for: numbers, and the escape sequences
of strings.
-/
import SamScript.Decimal.Read
import SamScript.Value.Basic

namespace SamScript.Literal

-- ============================================================== numbers

/-- The value of a number: with a point or an exponent a fraction, else a
whole number; nothing if a whole number does not fit in 64 bits. -/
def number? {φ : Type} (text : List Char) : Except Decimal.Fault (Option (Value φ)) :=
  if text.any fun c => c = '.' || c = 'e' || c = 'E' then
    (Decimal.readDouble text).map fun x => some (.float x)
  else
    (Decimal.readInteger 10 text).map fun n =>
      if Int64.minValue.toInt ≤ n ∧ n ≤ Int64.maxValue.toInt then some (.int (Int64.ofInt n)) else none

-- ============================================================== escapes

/-- The characters that single letters escape. -/
def escapeChar? : Char → Option Char
  | 'n' => some '\n'
  | 't' => some '\t'
  | 'r' => some '\r'
  | '0' => some '\x00'
  | '\\' => some '\\'
  | '\'' => some '\''
  | '"' => some '"'
  | 'b' => some '\x08'
  | 'f' => some '\x0c'
  | 'v' => some '\x0b'
  | _ => none

/-- The character of a code point. -/
def charOfCode? (n : Int) : Option Char :=
  if h : 0 ≤ n ∧ n.toNat.isValidChar then some (Char.ofNatAux n.toNat h.2) else none

def isBrace (c : Char) : Bool :=
  c = '\x7b' || c = '\x7d'

/-- A text without the braces at its two ends. -/
def stripBraces (text : List Char) : List Char :=
  ((text.dropWhile isBrace).reverse.dropWhile isBrace).reverse

/-- The character that an escape sequence stands for, from what follows its
backslash: a letter of the table, or `x` or `u` with the code in base
sixteen, braces around it allowed. Whatever else follows the backslash stands
for its own first character, and nothing for the backslash. -/
def decodeEscape (body : List Char) : Char :=
  match body with
  | [] => '\\'
  | c :: rest =>
    match escapeChar? c with
    | some decoded => decoded
    | none =>
      if c = 'x' ∨ c = 'u' then
        match Decimal.readInteger 16 (stripBraces rest) with
        | .ok n => (charOfCode? n).getD c
        | .error _ => c
      else c

end SamScript.Literal
