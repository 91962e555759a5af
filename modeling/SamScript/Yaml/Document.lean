/-
The values that nodes stand for. A scalar is read as its tag says, and a tag
that was written out may ask for more than the scalar can give. The entries
of a mapping keep the places in which their keys first came and take the
values that came last; those it merges come before its own.
-/
import SamScript.Config.Document
import SamScript.Decimal.Read
import SamScript.Yaml.Node

namespace SamScript.Yaml

-- ================================================================ faults

/-- Why a text gives no value. -/
inductive Fault where
  /-- The text is not well formed, or a tag does not fit its node. -/
  | malformed
  | number (fault : Decimal.Fault)
  /-- A number without a single character. -/
  | noNumber
  | notBool (text : String)
  | notTimestamp
  | calendar (fault : CalendarFault)
  deriving DecidableEq, Repr

/-- A fault in words. -/
def Fault.message : Fault → String
  | .malformed => "the text is no document"
  | .number fault => fault.message
  | .noNumber => "string index out of range"
  | .notBool text => Text.quoted text
  | .notTimestamp => "'NoneType' object has no attribute 'groupdict'"
  | .calendar fault => fault.message

namespace Scalar

-- =============================================================== numbers

/-- A number in base sixty, from its parts. -/
def ofSixtieths (parts : List Int) : Int :=
  parts.foldl (fun n part => n * 60 + part) 0

/-- The whole number that a scalar is. -/
def int (text : List Char) : Except Fault Int :=
  let text := text.filter (· ≠ '_')
  let body := Plain.unsigned text
  let read (base : Nat) (digits : List Char) : Except Fault Int :=
    (Decimal.readInteger base digits).mapError .number
  let magnitude : Except Fault Int :=
    match body with
    | [] => .error .noNumber
    | ['0'] => .ok 0
    | '0' :: 'b' :: digits => read 2 digits
    | '0' :: 'x' :: digits => read 16 digits
    | '0' :: _ => read 8 body
    | _ =>
      if body.contains ':' then
        ((Plain.colonParts [] body).mapM (read 10)).map ofSixtieths
      else read 10 body
  magnitude.map fun n => if text.head? = some '-' then -n else n

/-- A fraction in base sixty, from its parts, the last of which comes first
and is added first. -/
def ofSixtiethsFloat (parts : List Float) : Float :=
  (parts.foldl (fun (sum, weight) part => (sum + part * weight, weight * 60.0)) (0.0, 1.0)).1

/-- The words for the infinity and for what is no number, without a point in
front of them. -/
def word? (text : List Char) : Option Float :=
  if text = "inf".toList ∨ text = "infinity".toList then some Decimal.infinity
  else if text = "nan".toList then some Decimal.notANumber
  else none

/-- A fraction in base ten. -/
def decimal (text : List Char) : Except Fault Float :=
  let (negative, body) := Decimal.takeSign (Decimal.trim text)
  match word? body with
  | some x => .ok (if negative then -x else x)
  | none => (Decimal.readDouble text).mapError .number

/-- The fraction that a scalar is. -/
def float (text : List Char) : Except Fault Float :=
  let text := (text.filter (· ≠ '_')).map Char.toLower
  let body := Plain.unsigned text
  let magnitude : Except Fault Float :=
    if text.isEmpty then .error .noNumber
    else if body = ".inf".toList then .ok Decimal.infinity
    else if body = ".nan".toList then .ok Decimal.notANumber
    else if body.contains ':' then
      ((Plain.colonParts [] body).mapM decimal).map fun parts => ofSixtiethsFloat parts.reverse
    else decimal body
  magnitude.map fun x => if text.head? = some '-' then -x else x

-- ========================================================== other scalars

def bool (text : List Char) : Except Fault Bool :=
  let text := String.ofList (text.map Char.toLower)
  if ["yes", "true", "on"].contains text then .ok true
  else if ["no", "false", "off"].contains text then .ok false
  else .error (.notBool text)

/-- The day or the moment that a scalar is. -/
def timestamp (text : List Char) : Except Fault Document :=
  match Plain.stamp? text with
  | none => .error .notTimestamp
  | some s =>
    let day : Day := ⟨s.year, s.month, s.day⟩
    match s.time with
    | none =>
      match day.fault? with
      | some fault => .error (.calendar fault)
      | none => .ok (.day day)
    | some (hour, minute, second, microsecond) =>
      let moment : Moment := { day, hour, minute, second, microsecond, offset := s.offset }
      match moment.fault? with
      | some fault => .error (.calendar fault)
      | none => .ok (.moment moment)

/-- The six bits of a character in base sixty-four. -/
def sixBits? (c : Char) : Option Nat :=
  if 'A' ≤ c ∧ c ≤ 'Z' then some (c.toNat - 'A'.toNat)
  else if 'a' ≤ c ∧ c ≤ 'z' then some (c.toNat - 'a'.toNat + 26)
  else if c.isDigit then some (c.toNat - '0'.toNat + 52)
  else if c = '+' then some 62
  else if c = '/' then some 63
  else none

/-- The bytes that a scalar in base sixty-four spells. `place` counts the
characters of the group of four that is begun, `bits` are what they leave
over, and `pads` counts the equals signs in a row. Other characters are
passed over; an incomplete group is an error. -/
def binary (place bits pads : Nat) : List Char → Option (List UInt8)
  | [] => if place = 0 then some [] else none
  | c :: rest =>
    if c = '=' then
      if 2 ≤ place then if 4 ≤ place + pads + 1 then some [] else binary place bits (pads + 1) rest
      else binary place bits pads rest
    else
      match sixBits? c with
      | none => binary place bits pads rest
      | some six =>
        match place with
        | 0 => binary 1 six 0 rest
        | 1 => (binary 2 (six % 16) 0 rest).map (UInt8.ofNat (bits * 4 + six / 16) :: ·)
        | 2 => (binary 3 (six % 4) 0 rest).map (UInt8.ofNat (bits * 16 + six / 4) :: ·)
        | _ => (binary 0 0 0 rest).map (UInt8.ofNat (bits * 64 + six) :: ·)

/-- The value of a scalar. -/
def document (tag : Tag) (text : String) : Except Fault Document :=
  let cs := text.toList
  match tag with
  | .null => .ok .null
  | .bool => (bool cs).map .bool
  | .int => (int cs).map .int
  | .float => (float cs).map .float
  | .timestamp => timestamp cs
  | .binary =>
    match if cs.all fun c => c.toNat < 0x80 then binary 0 0 0 cs else none with
    | some bytes => .ok (.bytes bytes)
    | none => .error .malformed
  | .text => .ok (.text text)
  | _ => .error .malformed

end Scalar

-- ============================================================== mappings

/-- A number that may be a key beside others. -/
def keyNumber? : Document → Option (Bool × Decimal.Magnitude)
  | .bool b => some (false, .finite (if b then 1 else 0) 0)
  | .int n => some (n < 0, .finite n.natAbs 0)
  | .float x => some (Decimal.isNegative x, Decimal.decompose x)
  | _ => none

/-- Whether two numbers are the same, signs aside. -/
def sameMagnitude : Decimal.Magnitude → Decimal.Magnitude → Bool
  | .infinite, .infinite => true
  | .finite m e, .finite n f =>
    let base := min e f
    m <<< (e - base).toNat = n <<< (f - base).toNat
  | _, _ => false

/-- Whether a number is zero. -/
def isZero : Decimal.Magnitude → Bool
  | .finite 0 _ => true
  | _ => false

/-- Whether two values are the same key. Numbers are compared by what they
count, whatever their kind, and truth values count as one and zero. -/
def sameKey (a b : Document) : Bool :=
  match keyNumber? a, keyNumber? b with
  | some (s, m), some (t, n) => sameMagnitude m n && (s = t || isZero m)
  | _, _ =>
    match a, b with
    | .null, .null => true
    | .text s, .text t => s = t
    | .day d, .day e => d = e
    | .moment m, .moment n => m = n
    | .bytes x, .bytes y => x = y
    | _, _ => false

/-- Sets the value of a key: in its place if the key is there, else at the
end. -/
def putEntry (key value : Document) : List (Document × Document) → List (Document × Document)
  | [] => [(key, value)]
  | (k, v) :: rest =>
    if sameKey k key then (k, value) :: rest else (k, v) :: putEntry key value rest

/-- The entries of a mapping, from those that were written. -/
def entriesOf (written : List (Document × Document)) : List (Document × Document) :=
  written.foldl (fun entries (k, v) => putEntry k v entries) []

/-- Whether a value can be a key. -/
def canBeKey : Document → Bool
  | .list _ | .set _ | .mapping _ => false
  | _ => true

-- ================================================================= nodes

namespace Node

mutual

/-- The text of a scalar, or of the value that a mapping stands for. -/
def scalarText? : Node → Option String
  | .scalar _ text => some text
  | .sequence _ _ => none
  | .mapping _ entries => valueText? entries

/-- The text under the key of the value that a mapping stands for. -/
def valueText? : List (Node × Node) → Option String
  | [] => none
  | (.scalar .value _, v) :: _ => scalarText? v
  | (_, _) :: rest => valueText? rest

end

/-- The value of a node as a key, from its value. -/
def asKey (n : Node) (value : Except Fault Document) : Except Fault Document :=
  match n with
  | .scalar .value text => .ok (.text text)
  | _ => do
    let d ← value
    if canBeKey d then return d else throw .malformed

mutual

/-- The value of a node. -/
def document : Node → Except Fault Document
  | .scalar tag text => Scalar.document tag text
  | .sequence tag items =>
    match tag with
    | .sequence => (documents items).map .list
    | .pairs => (pairs items).map .list
    | _ => .error .malformed
  | .mapping tag entries =>
    match tag with
    | .mapping => (written entries).map fun (merged, own) => .mapping (entriesOf (merged ++ own))
    | .set => (written entries).map fun (merged, own) =>
        .set ((entriesOf (merged ++ own)).map Prod.fst)
    | tag =>
      match valueText? entries with
      | some text => Scalar.document tag text
      | none => .error .malformed

def documents : List Node → Except Fault (List Document)
  | [] => .ok []
  | n :: rest => do
    let d ← document n
    return d :: (← documents rest)

/-- What a mapping has written: the entries it merges, and its own. -/
def written : List (Node × Node) →
    Except Fault (List (Document × Document) × List (Document × Document))
  | [] => .ok ([], [])
  | (.scalar .merge _, v) :: rest => do
    let these ← mergedBy v
    let (merged, own) ← written rest
    return (these ++ merged, own)
  | (k, v) :: rest => do
    let k ← asKey k (document k)
    let v ← document v
    let (merged, own) ← written rest
    return (merged, (k, v) :: own)

/-- The entries that a node lets another mapping merge: those of a mapping,
or of several, of which the first has the last word. -/
def mergedBy : Node → Except Fault (List (Document × Document))
  | .mapping _ entries => (written entries).map fun (merged, own) => merged ++ own
  | .sequence _ items => mergedByAll items
  | .scalar _ _ => .error .malformed

def mergedByAll : List Node → Except Fault (List (Document × Document))
  | [] => .ok []
  | .mapping _ entries :: rest => do
    let (merged, own) ← written entries
    return (← mergedByAll rest) ++ merged ++ own
  | _ :: _ => .error .malformed

/-- Pairs, each from a mapping with one entry. -/
def pairs : List Node → Except Fault (List Document)
  | [] => .ok []
  | .mapping _ [(k, v)] :: rest => do
    let k ← document k
    let v ← document v
    return .tuple [k, v] :: (← pairs rest)
  | _ :: _ => .error .malformed

end

end Node

/-- The value of a text that holds one document; null if it holds none. -/
def read (text : List Char) : Except Fault Document :=
  match Node.ofText? text with
  | none => .error .malformed
  | some none => .ok .null
  | some (some n) => n.document

end SamScript.Yaml
