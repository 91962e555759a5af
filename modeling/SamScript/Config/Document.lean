/-
The values that a configuration document can hold, and how they are written
out when a setting wants text. Text inside a list or a mapping is quoted.
-/
import SamScript.Config.Calendar
import SamScript.Decimal.Notation
import SamScript.Decimal.Read
import SamScript.Json.Basic
import SamScript.Text.Quoted
import SamScript.Text.Utf8

namespace SamScript

/-- A value of a document. -/
inductive Document where
  | null
  | bool (b : Bool)
  | int (n : Int)
  | float (x : Float)
  | text (s : String)
  | day (d : Day)
  | moment (m : Moment)
  | bytes (data : List UInt8)
  | list (items : List Document)
  /-- A fixed sequence that is no list, as the key of a mapping can be. -/
  | tuple (items : List Document)
  | set (items : List Document)
  /-- The keys are distinct and in the order in which they first came. -/
  | mapping (entries : List (Document × Document))

namespace Document

/-- What a value's type is called. -/
def typeName : Document → String
  | .null => "NoneType"
  | .bool _ => "bool"
  | .int _ => "int"
  | .float _ => "float"
  | .text _ => "str"
  | .day _ => "date"
  | .moment _ => "datetime"
  | .bytes _ => "bytes"
  | .list _ => "list"
  | .tuple _ => "tuple"
  | .set _ => "set"
  | .mapping _ => "dict"

/-- Values that stand for nothing: null, false, zero, and whatever is empty. -/
def isEmpty : Document → Bool
  | .null => true
  | .bool b => !b
  | .int n => n = 0
  | .float x => x == 0.0
  | .text s => s.isEmpty
  | .bytes data => data.isEmpty
  | .list items => items.isEmpty
  | .tuple items => items.isEmpty
  | .set items => items.isEmpty
  | .mapping entries => entries.isEmpty
  | .day _ => false
  | .moment _ => false

-- =============================================================== writing

/-- A number with at least `width` digits. -/
def digits (width n : Nat) : String :=
  let ds := Nat.toDigits 10 n
  String.ofList (List.replicate (width - ds.length) '0' ++ ds)

/-- A day as text. -/
def dayText (d : Day) : String :=
  s!"{digits 4 d.year}-{digits 2 d.month}-{digits 2 d.day}"

/-- How far a clock is ahead, as text. -/
def offsetText (minutes : Int) : String :=
  let n := minutes.natAbs
  (if minutes < 0 then "-" else "+") ++ s!"{digits 2 (n / 60)}:{digits 2 (n % 60)}"

/-- A moment as text. -/
def momentText (m : Moment) : String :=
  let fraction := if m.microsecond = 0 then "" else "." ++ digits 6 m.microsecond
  s!"{dayText m.day} {digits 2 m.hour}:{digits 2 m.minute}:{digits 2 m.second}{fraction}"
    ++ (m.offset.map offsetText).getD ""

/-- How far a clock is ahead, as it is written inside a list. -/
def offsetCode (minutes : Int) : String :=
  if minutes = 0 then "datetime.timezone.utc"
  else s!"datetime.timezone({durationCode minutes})"

/-- Everything but lists and mappings, as it is written inside one. -/
def codeLeaf : Document → String
  | .bool true => "True"
  | .bool false => "False"
  | .int n => toString n
  | .float x => Decimal.write .plain x
  | .text s => Text.quoted s
  | .day d => s!"datetime.date({d.year}, {d.month}, {d.day})"
  | .moment m =>
    let parts := [m.day.year, m.day.month, m.day.day, m.hour, m.minute]
      ++ (if m.second = 0 ∧ m.microsecond = 0 then [] else [m.second])
      ++ (if m.microsecond = 0 then [] else [m.microsecond])
    let zone := match m.offset with
      | some minutes => [s!"tzinfo={offsetCode minutes}"]
      | none => []
    "datetime.datetime(" ++ ", ".intercalate (parts.map toString ++ zone) ++ ")"
  | .bytes data =>
    let quote : Char := if data.contains 0x27 && !data.contains 0x22 then '"' else '\''
    let one (b : UInt8) : List Char :=
      let c := Char.ofNat b.toNat
      if c = quote ∨ c = '\\' then ['\\', c]
      else if c = '\n' then ['\\', 'n']
      else if c = '\r' then ['\\', 'r']
      else if c = '\t' then ['\\', 't']
      else if 0x20 ≤ b ∧ b < 0x7F then [c]
      else '\\' :: 'x' :: Text.hex 2 b.toNat
    String.ofList ('b' :: quote :: data.flatMap one ++ [quote])
  | _ => "None"

mutual

/-- A value as it is written inside a list or a mapping. -/
def code : Document → String
  | .list items => "[" ++ ", ".intercalate (codes items) ++ "]"
  | .tuple items =>
    match items with
    | [] => "()"
    | [item] => "(" ++ code item ++ ",)"
    | items => "(" ++ ", ".intercalate (codes items) ++ ")"
  | .set items =>
    match items with
    | [] => "set()"
    | items => "\x7b" ++ ", ".intercalate (codes items) ++ "\x7d"
  | .mapping entries => "\x7b" ++ ", ".intercalate (entryCodes entries) ++ "\x7d"
  | leaf => codeLeaf leaf

def codes : List Document → List String
  | [] => []
  | d :: rest => code d :: codes rest

def entryCodes : List (Document × Document) → List String
  | [] => []
  | (key, value) :: rest => (code key ++ ": " ++ code value) :: entryCodes rest

end

/-- A value as the text of a setting. -/
def plainText : Document → String
  | .text s => s
  | .day d => dayText d
  | .moment m => momentText m
  | d => code d

mutual

/-- Whether a value can be written out: no whole number in it has more digits
than are written. -/
def isWritable : Document → Bool
  | .int n => (Nat.toDigits 10 n.natAbs).length ≤ Decimal.digitLimit
  | .list items => areWritable items
  | .tuple items => areWritable items
  | .set items => areWritable items
  | .mapping entries => entriesAreWritable entries
  | _ => true

def areWritable : List Document → Bool
  | [] => true
  | d :: rest => isWritable d && areWritable rest

def entriesAreWritable : List (Document × Document) → Bool
  | [] => true
  | (key, value) :: rest => isWritable key && isWritable value && entriesAreWritable rest

end

-- ============================================================= from JSON

mutual

/-- The document of a JSON value. -/
def ofJson : Json → Document
  | .null => .null
  | .bool b => .bool b
  | .int n => .int n
  | .float x => .float x
  | .string s => .text s
  | .array items => .list (ofJsonItems items)
  | .object members => .mapping (ofJsonMembers members)

def ofJsonItems : List Json → List Document
  | [] => []
  | j :: rest => ofJson j :: ofJsonItems rest

def ofJsonMembers : List (String × Json) → List (Document × Document)
  | [] => []
  | (name, j) :: rest => (.text name, ofJson j) :: ofJsonMembers rest

end

end Document

end SamScript
