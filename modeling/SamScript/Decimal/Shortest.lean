/-
The shortest decimal that reads back to a double: of all decimals that round
to it, one with the fewest digits, and of those the nearest to it.

The reals that round to a double form an interval, whose ends belong to it
when the mantissa is even. For 1, 2, … 17 digits the decimals of that length
next to the double, one on each side, are tested against the interval, in
exact whole numbers; 17 digits always suffice.
-/
import SamScript.Decimal.Binary

namespace SamScript.Decimal

/-- A decimal: its digits, most significant first, and the power of ten of
the first digit. -/
structure Digits where
  digits : List Char
  exponent : Int
  deriving DecidableEq, Repr

/-- A positive fraction, with the two ends of the interval around it that
count as the same, all over one denominator. -/
structure Around where
  low : Nat
  value : Nat
  high : Nat
  denominator : Nat
  /-- Whether the ends belong to the interval. -/
  closed : Bool

/-- The interval of reals that round to `mantissa * 2 ^ exponent`. Below a
power of two the doubles lie twice as close. -/
def around (mantissa : Nat) (exponent : Int) : Around :=
  let below := if mantissa = leastNormal ∧ exponent > -1074 then 1 else 2
  let up := (exponent - 2).toNat
  { low := (4 * mantissa - below) <<< up
    value := (4 * mantissa) <<< up
    high := (4 * mantissa + 2) <<< up
    denominator := 1 <<< (2 - exponent).toNat
    closed := mantissa % 2 = 0 }

/-- A power of ten. -/
def tenTo (k : Nat) : Nat :=
  Nat.pow 10 k

/-- The greatest power of ten that a positive fraction reaches. -/
def leadingExponent (value denominator : Nat) : Int :=
  if denominator ≤ value then
    ((Nat.toDigits 10 (value / denominator)).length : Int) - 1
  else
    let places := (Nat.toDigits 10 (denominator / value)).length
    if denominator ≤ value * tenTo (places - 1) then 1 - (places : Int) else -(places : Int)

/-- The decimal nearest to the value among those of a given length that lie
in the interval; of two at one distance, the even one. The grid of that
length has the step `10 ^ step`, and the value lies between the grid points
`below` and `below + 1`. -/
def nearestOnGrid (a : Around) (step : Int) : Option Nat :=
  let up := tenTo (-step).toNat
  let unit := a.denominator * tenTo step.toNat
  let inside (point : Nat) : Bool :=
    let p := point * unit
    if a.closed then a.low * up ≤ p && p ≤ a.high * up else a.low * up < p && p < a.high * up
  let value := a.value * up
  let below := value / unit
  let rest := value % unit
  match inside below, inside (below + 1) with
  | true, true =>
    if 2 * rest < unit ∨ (2 * rest = unit ∧ below % 2 = 0) then some below else some (below + 1)
  | true, false => some below
  | false, true => some (below + 1)
  | false, false => none

/-- Tries lengths from `length` on, `tries` of them. -/
def shortestFrom (a : Around) (leading : Int) : Nat → Nat → Nat × Int
  | 0, length => (a.value / a.denominator, leading - length + 1)
  | tries + 1, length =>
    let step := leading - length + 1
    match nearestOnGrid a step with
    | some n => (n, step)
    | none => shortestFrom a leading tries (length + 1)

/-- The shortest decimal of a finite double other than zero, and `0` for
zero. -/
def shortest (mantissa : Nat) (exponent : Int) : Digits :=
  if mantissa = 0 then ⟨['0'], 0⟩
  else
    let a := around mantissa exponent
    let (n, step) := shortestFrom a (leadingExponent a.value a.denominator) 17 1
    let all := Nat.toDigits 10 n
    let kept := (all.reverse.dropWhile (· = '0')).reverse
    ⟨kept, step + (all.length : Int) - 1⟩

end SamScript.Decimal
