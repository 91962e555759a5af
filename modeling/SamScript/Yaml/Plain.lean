/-
What plain scalars stand for: the notations of truth values, whole numbers,
fractions, null and points in time, as YAML 1.1 has them, in the order in
which they are tried. Whatever has none of these forms is text.
-/
namespace SamScript.Yaml

/-- What a node is. -/
inductive Tag where
  | null
  | bool
  | int
  | float
  | timestamp
  | binary
  | text
  | sequence
  | mapping
  | set
  | pairs
  /-- The key under which other mappings are merged into this one. -/
  | merge
  /-- The key of the value that a mapping stands for. -/
  | value
  | unknown (name : String)
  deriving DecidableEq, Repr, Inhabited

namespace Tag

/-- What the names of the standard tags begin with. -/
def standard : String := "tag:yaml.org,2002:"

/-- The tags by their names. -/
def named : List (String × Tag) :=
  [("null", .null), ("bool", .bool), ("int", .int), ("float", .float), ("timestamp", .timestamp),
    ("binary", .binary), ("str", .text), ("seq", .sequence), ("map", .mapping), ("set", .set),
    ("pairs", .pairs), ("omap", .pairs), ("merge", .merge), ("value", .value)]

/-- The tag of a full name. -/
def ofText (name : String) : Tag :=
  match named.find? fun p => standard ++ p.1 = name with
  | some (_, tag) => tag
  | none => .unknown name

end Tag

namespace Plain

-- ================================================================ digits

/-- A decimal digit or an underscore. -/
def isLoose (c : Char) : Bool :=
  c.isDigit || c = '_'

/-- A text without a sign in front of it. -/
def unsigned : List Char → List Char
  | '+' :: rest | '-' :: rest => rest
  | rest => rest

/-- Digits and underscores, a digit first. -/
def isNumber : List Char → Bool
  | c :: rest => c.isDigit && rest.all isLoose
  | [] => false

/-- The parts of a text between colons; `part` is the one begun, latest
character first. -/
def colonParts : List Char → List Char → List (List Char)
  | part, [] => [part.reverse]
  | part, ':' :: rest => part.reverse :: colonParts [] rest
  | part, c :: rest => colonParts (c :: part) rest

/-- A number below sixty in one or two digits. -/
def isSixtieth : List Char → Bool
  | [c] => c.isDigit
  | [c, d] => '0' ≤ c && c ≤ '5' && d.isDigit
  | _ => false

-- =============================================================== notations

def isBool (text : List Char) : Bool :=
  ["yes", "Yes", "YES", "no", "No", "NO", "true", "True", "TRUE", "false", "False", "FALSE", "on",
    "On", "ON", "off", "Off", "OFF"].contains (String.ofList text)

def isNull (text : List Char) : Bool :=
  ["~", "null", "Null", "NULL", ""].contains (String.ofList text)

/-- A whole number: in base two, eight or sixteen by its beginning, else in
base ten, or in base sixty with colons. -/
def isInt (text : List Char) : Bool :=
  match unsigned text with
  | '0' :: 'b' :: rest => !rest.isEmpty && rest.all fun c => c = '0' || c = '1' || c = '_'
  | '0' :: 'x' :: rest =>
    !rest.isEmpty && rest.all fun c =>
      c.isDigit || c = '_' || ('a' ≤ c && c ≤ 'f') || ('A' ≤ c && c ≤ 'F')
  | '0' :: rest => rest.all fun c => ('0' ≤ c && c ≤ '7') || c = '_'
  | rest =>
    match colonParts [] rest with
    | first :: more => isNumber first && more.all isSixtieth
    | [] => false

/-- The exponent of a fraction, which always has a sign, or nothing. -/
def isExponent : List Char → Bool
  | [] => true
  | e :: s :: digits =>
    (e = 'e' || e = 'E') && (s = '+' || s = '-') && !digits.isEmpty && digits.all Char.isDigit
  | _ => false

/-- A fraction: with a point in it, in base ten or with colons in base sixty,
or one of the words for the infinities and for what is no number. -/
def isFloat (text : List Char) : Bool :=
  let body := unsigned text
  let whole := body.takeWhile isLoose
  let rest := body.dropWhile isLoose
  let decimal := isNumber whole && match rest with
    | '.' :: rest => isExponent (rest.dropWhile isLoose)
    | _ => false
  let pointFirst := match text with
    | '.' :: c :: rest => c.isDigit && isExponent (rest.dropWhile isLoose)
    | _ => false
  let sixties :=
    let front := body.takeWhile (· ≠ '.')
    match colonParts [] front, body.dropWhile (· ≠ '.') with
    | first :: more, '.' :: rest =>
      !more.isEmpty && isNumber first && more.all isSixtieth && rest.all isLoose
    | _, _ => false
  decimal || pointFirst || sixties
    || [".inf", ".Inf", ".INF"].contains (String.ofList body)
    || [".nan", ".NaN", ".NAN"].contains (String.ofList text)

-- ========================================================== points in time

/-- Some digits at the front of a text: at least `least`, at most `most`. -/
def takeDigits? (least most : Nat) (text : List Char) : Option (Nat × List Char) :=
  let digits := (text.take most).takeWhile Char.isDigit
  if digits.length < least then none
  else some (digits.foldl (fun n d => n * 10 + (d.toNat - '0'.toNat)) 0, text.drop digits.length)

/-- A character that has to come next. -/
def expect? (c : Char) : List Char → Option (List Char)
  | d :: rest => if c = d then some rest else none
  | [] => none

/-- The parts of a point in time, not yet compared with the calendar. -/
structure Stamp where
  year : Nat
  month : Nat
  day : Nat
  /-- Hour, minute, second and millionths of a second. -/
  time : Option (Nat × Nat × Nat × Nat) := none
  /-- How far the clock is ahead, in minutes. -/
  offset : Option Int := none
  deriving DecidableEq, Repr

def isSpace (c : Char) : Bool :=
  c = ' ' || c = '\t'

/-- The zone of a point in time, up to the end of the text. -/
def zone? (text : List Char) : Option (Option Int) :=
  match text.dropWhile isSpace with
  | [] => if text.isEmpty then some none else none
  | ['Z'] => some (some 0)
  | s :: rest =>
    if s = '+' || s = '-' then do
      let (hours, rest) ← takeDigits? 1 2 rest
      let minutes ← match rest with
        | [] => some 0
        | ':' :: rest => do
          let (minutes, rest) ← takeDigits? 2 2 rest
          if rest.isEmpty then some minutes else none
        | _ => none
      let total : Int := hours * 60 + minutes
      return some (if s = '-' then -total else total)
    else none

/-- The millionths of a second that digits behind a point are. -/
def millionths (digits : List Char) : Nat :=
  let six := (digits ++ List.replicate 6 '0').take 6
  six.foldl (fun n d => n * 10 + (d.toNat - '0'.toNat)) 0

/-- The time of day and the zone behind a day. -/
def clock? (text : List Char) : Option ((Nat × Nat × Nat × Nat) × Option Int) := do
  let rest ← match text with
    | c :: rest =>
      if c = 'T' || c = 't' then some rest
      else if isSpace c then some (rest.dropWhile isSpace)
      else none
    | [] => none
  let (hour, rest) ← takeDigits? 1 2 rest
  let (minute, rest) ← takeDigits? 2 2 (← expect? ':' rest)
  let (second, rest) ← takeDigits? 2 2 (← expect? ':' rest)
  let (fraction, rest) := match rest with
    | '.' :: rest => (millionths (rest.takeWhile Char.isDigit), rest.dropWhile Char.isDigit)
    | rest => (0, rest)
  return ((hour, minute, second, fraction), ← zone? rest)

/-- A point in time. -/
def stamp? (text : List Char) : Option Stamp := do
  let (year, rest) ← takeDigits? 4 4 text
  let (month, rest) ← takeDigits? 1 2 (← expect? '-' rest)
  let (day, rest) ← takeDigits? 1 2 (← expect? '-' rest)
  if rest.isEmpty then return { year, month, day }
  else
    let (time, offset) ← clock? rest
    return { year, month, day, time := some time, offset }

/-- Whether a plain scalar is a point in time. A day on its own is written in
full. -/
def isTimestamp (text : List Char) : Bool :=
  match stamp? text with
  | some s => s.time.isSome || text.length = 10
  | none => false

end Plain

/-- The tag of a plain scalar. -/
def Tag.ofPlain (text : List Char) : Tag :=
  if Plain.isBool text then .bool
  else if Plain.isFloat text then .float
  else if Plain.isInt text then .int
  else if text = ['<', '<'] then .merge
  else if Plain.isNull text then .null
  else if Plain.isTimestamp text then .timestamp
  else if text = ['='] then .value
  else if text = ['!'] || text = ['&'] || text = ['*'] then .unknown "yaml"
  else .text

end SamScript.Yaml
