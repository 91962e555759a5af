/-
Doubles as exact numbers. A finite double is a sign, a whole number below
2^53 and a power of two; `decompose` reads these off its bits, and
`compose` goes back. What is exact about doubles (their shortest text, their
remainder) is computed on these whole numbers.
-/
namespace SamScript.Decimal

/-- What a double stands for. -/
inductive Magnitude where
  | nan
  | infinite
  /-- `mantissa * 2 ^ exponent` -/
  | finite (mantissa : Nat) (exponent : Int)
  deriving DecidableEq, Repr

/-- The least mantissa that fills its place, 2^52. -/
def leastNormal : Nat := 0x10000000000000

/-- Whether the sign bit of a double is set, also on a zero or a NaN. -/
def isNegative (x : Float) : Bool :=
  x.toBits >>> 63 = 1

/-- What a double stands for, its sign aside. -/
def decompose (x : Float) : Magnitude :=
  let bits := x.toBits.toNat
  let fraction := bits % leastNormal
  let biased : Nat := bits / leastNormal % 2048
  if biased = 2047 then if fraction = 0 then .infinite else .nan
  else if biased = 0 then .finite fraction (-1074)
  else .finite (leastNormal + fraction) ((biased : Int) - 1075)

/-- The double `mantissa * 2 ^ exponent`, for a mantissa below 2^53 and a
value that is one: a mantissa that can be doubled while the exponent can
drop is brought to its normal place first. -/
def compose (negative : Bool) (mantissa : Nat) (exponent : Int) : Float :=
  let shift := min (52 - Nat.log2 mantissa) (exponent + 1074).toNat
  let mantissa := mantissa <<< shift
  let biased : Nat := if mantissa < leastNormal then 0 else (exponent - (shift : Int) + 1075).toNat
  let bits := biased * leastNormal + mantissa % leastNormal
    + if negative then 0x8000000000000000 else 0
  Float.ofBits (UInt64.ofNat bits)

/-- Infinity. -/
def infinity : Float := Float.ofBits 0x7FF0000000000000

/-- The quiet NaN. -/
def notANumber : Float := Float.ofBits 0x7FF8000000000000

/-- The remainder of `x` by `y`, exact, with the sign of `x`. Nothing when
`x` is infinite or `y` is zero, which have no remainder; a NaN on either side
gives a NaN. -/
def remainder? (x y : Float) : Option Float :=
  match decompose x, decompose y with
  | .nan, _ => some notANumber
  | _, .nan => some notANumber
  | .infinite, _ => none
  | .finite _ _, .infinite => some x
  | .finite m e, .finite n f =>
    if n = 0 then none
    else
      let base := min e f
      let rest := (m <<< (e - base).toNat) % (n <<< (f - base).toNat)
      some (compose (isNegative x) rest base)

end SamScript.Decimal
