/-
How a double is written. The shortest decimal that reads back stands in
positional notation while its first digit has a place from 10^-4 to 10^15,
always with a fraction; beyond that in scientific notation, the exponent
with its sign and at least two digits.
-/
import SamScript.Decimal.Shortest

namespace SamScript.Decimal

/-- The decisions of a number format that its digits leave open. -/
structure Style where
  /-- The least and the greatest exponent written positionally. -/
  positional : Int × Int
  /-- The fewest digits of a written exponent. -/
  exponentDigits : Nat
  nan : String
  infinity : String

/-- The style of every double that a value, a configuration or a JSON text
shows; only the spellings of the three special numbers differ. -/
def Style.plain : Style := ⟨(-4, 15), 2, "nan", "inf"⟩

/-- The style of doubles in JSON. -/
def Style.json : Style := { Style.plain with nan := "NaN", infinity := "Infinity" }

/-- Digits with a point after the first `exponent + 1` of them. -/
def positional (d : Digits) : List Char :=
  if d.exponent < 0 then
    '0' :: '.' :: List.replicate (-d.exponent - 1).toNat '0' ++ d.digits
  else
    let whole := d.exponent.toNat + 1
    let integer := d.digits.take whole ++ List.replicate (whole - d.digits.length) '0'
    let fraction := d.digits.drop whole
    integer ++ '.' :: if fraction.isEmpty then ['0'] else fraction

/-- One digit before the point, and the power of ten. -/
def scientific (style : Style) (d : Digits) : List Char :=
  let exponent := Nat.toDigits 10 d.exponent.natAbs
  let mantissa := match d.digits with
    | first :: rest@(_ :: _) => first :: '.' :: rest
    | digits => digits
  mantissa ++ ['e', if d.exponent < 0 then '-' else '+']
    ++ List.replicate (style.exponentDigits - exponent.length) '0' ++ exponent

/-- A double in a style. -/
def write (style : Style) (x : Float) : String :=
  let sign := if isNegative x then "-" else ""
  match decompose x with
  | .nan => style.nan
  | .infinite => sign ++ style.infinity
  | .finite mantissa exponent =>
    let d := shortest mantissa exponent
    let body :=
      if style.positional.1 ≤ d.exponent ∧ d.exponent ≤ style.positional.2 then positional d
      else scientific style d
    sign ++ String.ofList body

end SamScript.Decimal
