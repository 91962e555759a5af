/-
`echo` and `printf`, each in two manners: as the shell has them built in, and
as programs of their own. The two agree on the conversions of a format and
differ in escape sequences, in what counts as an option and in the wording of
complaints.
-/
import SamScript.Decimal.Read
import SamScript.Decimal.Shortest
import SamScript.Machine.Escape

namespace SamScript.Machine

/-- Who prints. -/
inductive Manner where
  | builtin
  | standalone
  deriving DecidableEq, Repr

/-- What a printing program did. -/
structure Printed where
  out : Octets := []
  complaints : List Octets := []
  status : Nat := 0

-- ================================================================= echo

namespace Echo

/-- Arguments with blanks between them, and escape sequences if there are
any. -/
def line (escapes : Option Escapes) (newline : Bool) (arguments : List Octets) : Octets :=
  let text := Octets.join [' '] arguments
  match escapes with
  | none => text ++ if newline then ['\n'] else []
  | some e =>
    let (text, goesOn) := e.expand text.length text
    text ++ if newline && goesOn then ['\n'] else []

/-- Whether an argument is made of options. -/
def isOptions : Octets → Bool
  | '-' :: c :: rest => (c :: rest).all fun c => c = 'n' || c = 'e' || c = 'E'
  | _ => false

/-- Whether the last of some option letters that tells switches escape
sequences on. -/
def interprets (options : List Octets) : Bool :=
  (options.flatten.filter fun c => c = 'e' || c = 'E').getLast? = some 'e'

/-- The line that the arguments print. The shell knows one option and always
decodes escape sequences; the program decodes them when asked to. -/
def run (manner : Manner) (arguments : List Octets) : Octets :=
  match manner with
  | .builtin =>
    let escapes : Escapes := { stops := true, leadingZero := true, escapeChar := true }
    match arguments with
    | ['-', 'n'] :: rest => line (some escapes) false rest
    | rest => line (some escapes) true rest
  | .standalone =>
    let options := arguments.takeWhile isOptions
    let escapes : Escapes := { stops := true, leadingZero := true, escapeChar := true, hex := true }
    line (if interprets options then some escapes else none) (!options.flatten.contains 'n')
      (arguments.dropWhile isOptions)

end Echo

-- ============================================================== printf

namespace Printf

/-- How a conversion is laid out. -/
structure Layout where
  left : Bool := false
  plus : Bool := false
  space : Bool := false
  zero : Bool := false
  alternate : Bool := false
  width : Nat := 0
  precision : Option Nat := none

/-- Fills a text up to the width; `sign` stays in front of zeros. -/
def Layout.fill (l : Layout) (zeros : Bool) (sign body : Octets) : Octets :=
  let missing := l.width - (sign.length + body.length)
  if l.left then sign ++ body ++ List.replicate missing ' '
  else if l.zero && zeros then sign ++ List.replicate missing '0' ++ body
  else List.replicate missing ' ' ++ sign ++ body

/-- The sign of a number. -/
def Layout.sign (l : Layout) (negative : Bool) : Octets :=
  if negative then ['-'] else if l.plus then ['+'] else if l.space then [' '] else []

/-- A text, cut to the precision. -/
def Layout.text (l : Layout) (t : Octets) : Octets :=
  l.fill false [] (match l.precision with
    | some p => t.take p
    | none => t)

/-- Digits, with zeros in front of them as the precision asks for. -/
def Layout.digits (l : Layout) (n : Nat) (ds : Octets) : Octets :=
  match l.precision with
  | some 0 => if n = 0 then [] else ds
  | some p => List.replicate (p - ds.length) '0' ++ ds
  | none => ds

/-- A whole number with its sign. -/
def Layout.signed (l : Layout) (n : Int) : Octets :=
  l.fill l.precision.isNone (l.sign (n < 0)) (l.digits n.natAbs (Octets.ofNat n.natAbs))

/-- A whole number without a sign, in the base of its conversion. -/
def Layout.unsigned (l : Layout) (conversion : Char) (n : Nat) : Octets :=
  let base := if conversion = 'o' then 8 else if conversion = 'u' then 10 else 16
  let ds := l.digits n (Nat.toDigits base n)
  let lead : Octets :=
    if !l.alternate || n = 0 then []
    else if conversion = 'o' then if ds.head? = some '0' then [] else ['0']
    else if conversion = 'x' || conversion = 'X' then ['0', 'x']
    else []
  let body := l.fill l.precision.isNone lead ds
  if conversion = 'X' then body.map Char.toUpper else body

-- ------------------------------------------------------------ fractions

/-- A quotient rounded to the nearest whole number, a half to the even one. -/
def roundDiv (n d : Nat) : Nat :=
  let q := n / d
  let r := n % d
  if 2 * r > d ∨ (2 * r = d ∧ q % 2 = 1) then q + 1 else q

/-- Digits with a point before the last `places` of them. -/
def withPoint (alternate : Bool) (places n : Nat) : Octets :=
  let ds := Octets.ofNat n
  let ds := List.replicate (places + 1 - ds.length) '0' ++ ds
  let whole := ds.take (ds.length - places)
  if places = 0 then if alternate then whole ++ ['.'] else whole
  else whole ++ '.' :: ds.drop (ds.length - places)

/-- A positive quotient in positional notation. -/
def fixed (alternate : Bool) (places n d : Nat) : Octets :=
  withPoint alternate places (roundDiv (n * Decimal.tenTo places) d)

/-- The power of ten at or below a positive quotient. -/
def magnitude (n d : Nat) : Int :=
  let guess : Int := (Nat.toDigits 10 n).length - (Nat.toDigits 10 d).length
  let reaches (e : Int) : Bool :=
    if e < 0 then d ≤ n * Decimal.tenTo e.natAbs else d * Decimal.tenTo e.natAbs ≤ n
  if reaches guess then guess else guess - 1

/-- The digits of a quotient in scientific notation, with the exponent. -/
def scientificDigits (places n d : Nat) : Nat × Int :=
  if n = 0 then (0, 0)
  else
    let e := magnitude n d
    let shift := (places : Int) - e
    let m := if shift < 0 then roundDiv n (d * Decimal.tenTo shift.natAbs)
      else roundDiv (n * Decimal.tenTo shift.natAbs) d
    if m ≥ Decimal.tenTo (places + 1) then (m / 10, e + 1) else (m, e)

/-- An exponent with its sign and two digits at least. -/
def exponent (e : Int) : Octets :=
  let ds := Octets.ofNat e.natAbs
  'e' :: (if e < 0 then '-' else '+') :: List.replicate (2 - ds.length) '0' ++ ds

/-- A positive quotient in scientific notation. -/
def scientific (alternate : Bool) (places n d : Nat) : Octets :=
  let (m, e) := scientificDigits places n d
  withPoint alternate places m ++ exponent e

/-- Digits without the zeros behind the point. -/
def trimZeros (ds : Octets) : Octets :=
  if ds.contains '.' then
    let rest := ds.reverse.dropWhile (· = '0')
    (if rest.head? = some '.' then rest.drop 1 else rest).reverse
  else ds

/-- A positive quotient in whichever notation is shorter. -/
def general (alternate : Bool) (precision n d : Nat) : Octets :=
  let precision := max precision 1
  let (m, e) := scientificDigits (precision - 1) n d
  if e < -4 ∨ (precision : Int) ≤ e then
    let ds := withPoint alternate (precision - 1) m
    (if alternate then ds else trimZeros ds) ++ exponent e
  else
    let ds := fixed alternate (precision - 1 - e).toNat n d
    if alternate then ds else trimZeros ds

/-- A double in the notation of its conversion. -/
def Layout.fraction (l : Layout) (conversion : Char) (x : Float) : Octets :=
  let places := l.precision.getD 6
  let negative := Decimal.isNegative x
  let body (n d : Nat) : Octets :=
    match conversion.toLower with
    | 'f' => fixed l.alternate places n d
    | 'e' => scientific l.alternate places n d
    | _ => general l.alternate places n d
  let text : Octets :=
    match Decimal.decompose x with
    | .finite m q => if q < 0 then body m (1 <<< q.natAbs) else body (m <<< q.natAbs) 1
    | .infinite => "inf".toList
    | .nan => "nan".toList
  let finite := text.any Char.isDigit
  let out := l.fill finite (l.sign negative) text
  if conversion.isUpper then out.map Char.toUpper else out

-- ------------------------------------------------------------ arguments

/-- A number read from the front of a text, and what is left of the text. -/
structure Numeral (α : Type) where
  value : α
  rest : Octets
  /-- Whether there was a number at all. -/
  found : Bool
  /-- Whether it had to be cut to the greatest that fits. -/
  cut : Bool := false

def isSpace (c : Char) : Bool :=
  c = ' ' || ('\t' ≤ c && c ≤ '\r')

/-- A whole number at the front of a text: decimal, or octal after a zero, or
hexadecimal after `0x`. -/
def wholeNumber (text : Octets) : Numeral Int :=
  let (negative, body) := match text.dropWhile isSpace with
    | '-' :: rest => (true, rest)
    | '+' :: rest => (false, rest)
    | rest => (false, rest)
  let (value, count, rest) : Nat × Nat × Octets :=
    match body with
    | '0' :: x :: d :: rest =>
      if (x = 'x' || x = 'X') && (Escapes.digit? 16 d).isSome then
        Escapes.digits 16 body.length (d :: rest)
      else Escapes.digits 8 body.length body
    | '0' :: _ => Escapes.digits 8 body.length body
    | _ => Escapes.digits 10 body.length body
  { value := if negative then -value else value
    rest := if count = 0 then text else rest
    found := count ≠ 0 }

/-- Cuts a number to what a conversion with a sign can show. -/
def cutSigned (n : Numeral Int) : Numeral Int :=
  if n.value > Int64.maxValue.toInt then { n with value := Int64.maxValue.toInt, cut := true }
  else if n.value < Int64.minValue.toInt then { n with value := Int64.minValue.toInt, cut := true }
  else n

/-- Cuts a number to what a conversion without a sign can show; a negative
one wraps. -/
def cutUnsigned (n : Numeral Int) : Numeral Nat :=
  if n.value.natAbs ≥ UInt64.size then
    { value := UInt64.size - 1, rest := n.rest, found := n.found, cut := true }
  else { value := (n.value % (UInt64.size : Int)).toNat, rest := n.rest, found := n.found }

/-- A fraction at the front of a text. -/
def fractionNumber (text : Octets) : Numeral Float :=
  let (sign, body) := match text.dropWhile isSpace with
    | '-' :: rest => (['-'], rest)
    | '+' :: rest => ([], rest)
    | rest => ([], rest)
  let whole := body.takeWhile Char.isDigit
  let after := body.dropWhile Char.isDigit
  let (fraction, after) := match after with
    | '.' :: rest => ('.' :: rest.takeWhile Char.isDigit, rest.dropWhile Char.isDigit)
    | rest => ([], rest)
  let mantissa := if whole.isEmpty then '0' :: fraction else whole ++ fraction
  let found := (whole ++ fraction).any Char.isDigit
  let (power, after) : Octets × Octets := match after with
    | c :: rest =>
      if c = 'e' || c = 'E' then
        let (esign, ds) := match rest with
          | '-' :: ds => (['-'], ds)
          | '+' :: ds => ([], ds)
          | ds => ([], ds)
        if (ds.head?.map Char.isDigit).getD false then
          ('e' :: esign ++ ds.takeWhile Char.isDigit, ds.dropWhile Char.isDigit)
        else ([], after)
      else ([], after)
    | [] => ([], after)
  if found then
    match Decimal.readDouble (sign ++ mantissa ++ power) with
    | .ok x => { value := x, rest := after, found }
    | .error _ => { value := 0.0, rest := text, found := false }
  else
    let word := (body.take 3).map Char.toLower
    if word = "inf".toList || word = "nan".toList then
      let x : Float := if word = "inf".toList then 1.0 / 0.0 else 0.0 / 0.0
      { value := if sign.isEmpty then x else -x, rest := body.drop 3, found := true }
    else { value := 0.0, rest := text, found := false }

/-- The number of the character after a quote. -/
def quoted? (manner : Manner) (text : Octets) : Option (Nat × Octets) :=
  match text with
  | [q] => if (q = '"' || q = '\'') && manner = .builtin then some (0, []) else none
  | q :: c :: rest =>
    if q = '"' || q = '\'' then
      match manner with
      | .builtin => some (c.toNat, [])
      | .standalone =>
        match Utf8.readChar (Octets.toByte c) (Octets.toBytes rest) with
        | .ok (c, rest) => some (c.toNat, Octets.ofBytes rest)
        | .error _ => some (c.toNat, rest)
    else none
  | _ => none

/-- Quotation marks around a text. -/
def quotes (text : Octets) : Octets :=
  Octets.ofText "‘" ++ text ++ Octets.ofText "’"

/-- What is wrong with an argument that was to be a number, if anything is:
the complaint, and whether it is a failure. -/
def complaint? {α : Type} (manner : Manner) (text : Octets) (n : Numeral α) :
    Option (Octets × Bool) :=
  let say (builtin standalone : String) : Option (Octets × Bool) :=
    match manner with
    | .builtin => some (text ++ Octets.ofText (": " ++ builtin), true)
    | .standalone => some (quotes text ++ Octets.ofText (": " ++ standalone), true)
  if !n.found then
    if text.isEmpty then none else say "expected numeric value" "expected a numeric value"
  else if n.cut then say "Numerical result out of range" "Numerical result out of range"
  else if n.rest.isEmpty then none
  else say "not completely converted" "value not completely converted"

-- -------------------------------------------------------------- formats

/-- A format in the middle of being printed. -/
structure Job where
  arguments : List Octets
  /-- What is printed so far, latest first. -/
  out : List Octets := []
  /-- The complaints so far, latest first. -/
  complaints : List Octets := []
  failed : Bool := false

namespace Job

def print (j : Job) (text : Octets) : Job :=
  { j with out := text :: j.out }

def complain (j : Job) (text : Octets) (failure : Bool) : Job :=
  { j with complaints := text :: j.complaints, failed := j.failed || failure }

/-- The next argument; an empty text if there is none. -/
def next (j : Job) : Octets × Job :=
  match j.arguments with
  | [] => ([], j)
  | a :: rest => (a, { j with arguments := rest })

/-- The next argument as a number. -/
def number {α : Type} (manner : Manner) (read : Octets → Numeral α) (ofNat : Nat → α)
    (j : Job) : α × Job :=
  let (text, j) := j.next
  match quoted? manner text with
  | some (n, rest) =>
    let j := if rest.isEmpty then j
      else j.complain (Octets.ofText "warning: " ++ rest
        ++ Octets.ofText ": character(s) following character constant have been ignored") false
    (ofNat n, j)
  | none =>
    let n := read text
    match complaint? manner text n with
    | some (words, failure) => (n.value, j.complain words failure)
    | none => (n.value, j)

/-- A width or a precision: digits, or the next argument for a star. -/
def size (manner : Manner) (format : Octets) (j : Job) : Option Int × Octets × Job :=
  match format with
  | '*' :: rest =>
    let (n, j) := j.number manner (fun t => cutSigned (wholeNumber t)) Int.ofNat
    (some n, rest, j)
  | _ =>
    let (value, count, rest) := Escapes.digits 10 format.length format
    (if count = 0 then none else some value, rest, j)

end Job

/-- The flags at the front of a conversion. -/
def flags : Octets → Layout → Layout × Octets
  | c :: rest, l =>
    if c = '-' then flags rest { l with left := true }
    else if c = '+' then flags rest { l with plus := true }
    else if c = ' ' then flags rest { l with space := true }
    else if c = '0' then flags rest { l with zero := true }
    else if c = '#' then flags rest { l with alternate := true }
    else (l, c :: rest)
  | [], l => (l, [])

/-- How printing a format goes on. -/
inductive Step where
  | on (j : Job) (rest : Octets)
  /-- Printing is over, and nothing is wrong. -/
  | over (j : Job)
  /-- Printing cannot go on. -/
  | broken (j : Job) (words : Octets)

/-- The escape sequences of a format. -/
def formatEscapes : Manner → Escapes
  | .builtin => { escapeChar := true }
  | .standalone =>
    { stops := true, escapeChar := true, quote := true, hex := true, codePoint := true, strict := true }

/-- The escape sequences of an argument. -/
def argumentEscapes : Manner → Escapes
  | .builtin => { stops := true, leadingZero := true, escapeChar := true }
  | .standalone =>
    { stops := true, leadingZero := true, escapeChar := true, quote := true, hex := true,
      codePoint := true, strict := true }

/-- Prints the next argument by a conversion. -/
def convert (manner : Manner) (conversion : Char) (l : Layout) (j : Job) : Option (Step ⊕ Job) :=
  match conversion with
  | 's' =>
    let (t, j) := j.next
    some (.inr (j.print (l.text t)))
  | 'b' =>
    let (t, j) := j.next
    let (t, goesOn) := (argumentEscapes manner).expand t.length t
    let j := j.print (l.text t)
    some (if goesOn then .inr j else .inl (.over j))
  | 'c' =>
    let (t, j) := j.next
    some (.inr (j.print (l.fill false [] [t.headD '\x00'])))
  | 'd' | 'i' =>
    let (n, j) := j.number manner (fun t => cutSigned (wholeNumber t)) Int.ofNat
    some (.inr (j.print (l.signed n)))
  | 'o' | 'u' | 'x' | 'X' =>
    let (n, j) := j.number manner (fun t => cutUnsigned (wholeNumber t)) id
    some (.inr (j.print (l.unsigned conversion n)))
  | 'f' | 'F' | 'e' | 'E' | 'g' | 'G' =>
    let (x, j) := j.number manner fractionNumber Float.ofNat
    some (.inr (j.print (l.fraction conversion x)))
  | _ => none

/-- The conversion at the front of what follows a percent sign. -/
def directive (manner : Manner) (format : Octets) (j : Job) : Step :=
  match format with
  | '%' :: rest => .on (j.print ['%']) rest
  | _ =>
    let (l, after) := flags format {}
    let (width, after, j) := j.size manner after
    let l := match width with
      | some w => if w < 0 then { l with left := true, width := w.natAbs } else { l with width := w.toNat }
      | none => l
    let (l, after, j) : Layout × Octets × Job := match after with
      | '.' :: rest =>
        let (p, rest, j) := j.size manner rest
        let p := p.getD 0
        (if p < 0 then l else { l with precision := some p.toNat }, rest, j)
      | rest => (l, rest, j)
    let after := match manner with
      | .builtin => after
      | .standalone => after.dropWhile fun c => c = 'l' || c = 'h' || c = 'L' || c = 'j' || c = 't' || c = 'z'
    let seen := '%' :: format.take (format.length - after.length)
    match after with
    | [] => .broken j (match manner with
        | .builtin => Octets.ofText "missing format character"
        | .standalone => seen ++ Octets.ofText ": invalid conversion specification")
    | c :: rest =>
      match convert manner c l j with
      | some (.inr j) => .on j rest
      | some (.inl step) => step
      | none => .broken j (seen ++ [c] ++ Octets.ofText (match manner with
          | .builtin => ": invalid directive"
          | .standalone => ": invalid conversion specification"))

/-- Prints a format once. The first argument bounds the number of steps; the
length of the format is enough. -/
def once (manner : Manner) : Nat → Octets → Job → Step
  | n + 1, c :: rest, j =>
    let step :=
      if c = '\\' then
        match (formatEscapes manner).read rest with
        | .text t rest => .on (j.print t) rest
        | .stop => .over j
        | .missingDigits => .broken j (Octets.ofText "missing hexadecimal number in escape")
      else if c = '%' then directive manner rest j
      else .on (j.print [c]) rest
    match step with
    | .on j rest => once manner n rest j
    | step => step
  | _, _, j => .on j []

/-- Prints a format again and again while it takes arguments and some are
left. The first argument bounds how often; the number of arguments is
enough. -/
def repeated (manner : Manner) (format : Octets) : Nat → Job → Step
  | n, j =>
    match once manner format.length format j with
    | .on j' _ =>
      match n with
      | 0 => .over j'
      | n + 1 =>
        if j'.arguments.isEmpty then .over j'
        else if j'.arguments.length < j.arguments.length then repeated manner format n j'
        else
          match manner, j'.arguments with
          | .standalone, a :: _ =>
            .over (j'.complain (Octets.ofText "warning: ignoring excess arguments, starting with "
              ++ quotes a) false)
          | _, _ => .over j'
    | step => step

/-- Prints arguments by a format. -/
def run (manner : Manner) (format : Octets) (arguments : List Octets) : Printed :=
  let finish (j : Job) (status : Nat) : Printed :=
    { out := j.out.reverse.flatten, complaints := j.complaints.reverse, status }
  match repeated manner format arguments.length { arguments } with
  | .on j _ | .over j => finish j (if j.failed then 1 else 0)
  | .broken j words =>
    finish (j.complain words true) (match manner with
      | .builtin => 2
      | .standalone => 1)

end Printf

end SamScript.Machine
