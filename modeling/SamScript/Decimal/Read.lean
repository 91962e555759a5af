/-
Reading numbers. `ofDecimal` is the double nearest to a decimal, `ofInteger?`
the double nearest to a whole number. `readInteger` and `readDouble` read a
whole text, as loosely as the two number syntaxes allow: blanks around it,
single underscores between digits, decimal digits of any script.
-/
import SamScript.Decimal.Binary
import SamScript.Text.Class
import SamScript.Text.Quoted

namespace SamScript.Decimal

open Text

-- ======================================================== nearest doubles

/-- The double nearest to `digits * 10 ^ exponent`. Far beyond the largest
double and far below the least one the answer is known without computing the
power. -/
def ofDecimal (negative : Bool) (digits : Nat) (exponent : Int) : Float :=
  let leading := exponent + ((Nat.toDigits 10 digits).length : Int)
  let magnitude : Float :=
    if digits = 0 ∨ leading < -400 then 0.0
    else if leading > 400 then infinity
    else if exponent < 0 then Float.ofScientific digits true exponent.natAbs
    else Float.ofScientific digits false exponent.natAbs
  if negative then -magnitude else magnitude

/-- The double nearest to a whole number, if that is finite. -/
def ofInteger? (n : Int) : Option Float :=
  let x := ofDecimal (n < 0) n.natAbs 0
  if decompose x = .infinite then none else some x

-- ================================================================ digits

/-- The value of a digit in bases up to sixteen. -/
def digitValue? (base : Nat) (c : Char) : Option Nat :=
  let value :=
    match decimalValue? c with
    | some d => some d
    | none =>
      if 'a' ≤ c ∧ c ≤ 'f' then some (c.toNat - 'a'.toNat + 10)
      else if 'A' ≤ c ∧ c ≤ 'F' then some (c.toNat - 'A'.toNat + 10)
      else none
  value.filter (· < base)

/-- The digits at the front of a text, with single underscores between them;
the flag says whether an underscore may come next. -/
def takeDigits (base : Nat) : Bool → List Char → List Nat × List Char
  | _, [] => ([], [])
  | between, c :: rest =>
    match digitValue? base c with
    | some d =>
      let (ds, rest) := takeDigits base true rest
      (d :: ds, rest)
    | none =>
      match between, c, rest with
      | true, '_', e :: more =>
        match digitValue? base e with
        | some d =>
          let (ds, rest) := takeDigits base true more
          (d :: ds, rest)
        | none => ([], c :: rest)
      | _, _, _ => ([], c :: rest)

/-- The number that digits spell. -/
def ofDigits (base : Nat) (digits : List Nat) : Nat :=
  digits.foldl (fun n d => n * base + d) 0

/-- The blanks that may stand around a number: all but the four separator
controls. -/
def isSpace (c : Char) : Bool :=
  isBlank c && !('\x1c' ≤ c && c ≤ '\x1f')

/-- A text without the blanks around it. -/
def trim (text : List Char) : List Char :=
  ((text.dropWhile isSpace).reverse.dropWhile isSpace).reverse

/-- A sign at the front of a text. -/
def takeSign : List Char → Bool × List Char
  | '-' :: rest => (true, rest)
  | '+' :: rest => (false, rest)
  | rest => (false, rest)

-- =============================================================== integers

/-- The most decimal digits that a whole number may be written with. -/
def digitLimit : Nat := 4300

/-- Why a text spells no number. -/
inductive Fault where
  /-- The text is no whole number in the base. -/
  | notInteger (base : Nat) (text : String)
  /-- The text is no decimal fraction. -/
  | notDecimal (text : String)
  /-- The whole number has more digits than the limit. -/
  | tooLong (digits : Nat)
  deriving DecidableEq, Repr

/-- How much of a text is shown that is no whole number, its quotes
included. -/
def shownLimit : Nat := 200

/-- A number that cannot be read, in words. -/
def Fault.message : Fault → String
  | .notInteger base text =>
    let shown := String.ofList ((quoted text).toList.take shownLimit)
    s!"invalid literal for int() with base {base}: {shown}"
  | .notDecimal text => s!"could not convert string to float: {quoted text}"
  | .tooLong digits =>
    s!"Exceeds the limit ({digitLimit} digits) for integer string conversion: "
      ++ s!"value has {digits} digits; use sys.set_int_max_str_digits() to increase the limit"

/-- The letter that tells a base, behind a zero. -/
def baseLetter? (base : Nat) : Option Char :=
  if base = 2 then some 'b'
  else if base = 8 then some 'o'
  else if base = 16 then some 'x'
  else none

/-- A text without the zero and the letter that tell its base, and without an
underscore behind them. -/
def dropBase (base : Nat) (text : List Char) : List Char :=
  match text with
  | '0' :: letter :: rest =>
    if some letter.toLower = baseLetter? base then
      match rest with
      | '_' :: rest => rest
      | rest => rest
    else text
  | _ => text

/-- Reads a whole number. A base other than ten may be told in front of the
digits, and any number of digits is read; in base ten their number is
limited, which is checked before what comes after them. -/
def readInteger (base : Nat) (text : List Char) : Except Fault Int :=
  let (negative, body) := takeSign (trim text)
  let (digits, rest) := takeDigits base false (dropBase base body)
  if base = 10 ∧ digits.length > digitLimit then .error (.tooLong digits.length)
  else if digits.isEmpty ∨ ¬rest.isEmpty then .error (.notInteger base (String.ofList text))
  else
    let n : Int := ofDigits base digits
    .ok (if negative then -n else n)

-- ============================================================== fractions

/-- Reads a decimal fraction with an optional exponent. Of the digits before
and after the point one part may be missing. -/
def readDouble (text : List Char) : Except Fault Float :=
  let fail := Except.error (Fault.notDecimal (String.ofList text))
  let (negative, body) := takeSign (trim text)
  let (whole, rest) := takeDigits 10 false body
  let (fraction, rest) :=
    match rest with
    | '.' :: rest => takeDigits 10 false rest
    | rest => ([], rest)
  if whole.isEmpty ∧ fraction.isEmpty then fail
  else
    let finish (exponent : Int) : Except Fault Float :=
      .ok (ofDecimal negative (ofDigits 10 (whole ++ fraction)) (exponent - fraction.length))
    match rest with
    | [] => finish 0
    | e :: rest =>
      if e = 'e' ∨ e = 'E' then
        let (down, rest) := takeSign rest
        let (digits, rest) := takeDigits 10 false rest
        if digits.isEmpty ∨ ¬rest.isEmpty then fail
        else
          let n : Int := ofDigits 10 digits
          finish (if down then -n else n)
      else fail

end SamScript.Decimal
