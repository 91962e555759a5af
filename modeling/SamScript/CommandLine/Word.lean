/-
The words of a command line, told apart: options, which begin with a dash,
and the others. An option may be cut short as long as only one begins that
way, may bring its value behind an equals sign, and, if its name is a single
letter, may be followed at once by its value or by the letters of others.
-/
import SamScript.Text.Class

namespace SamScript.CommandLine

/-- The options that there are. -/
inductive Switch where
  | help
  | config
  | json
  deriving DecidableEq, Repr

namespace Switch

/-- What an option is called. -/
def names : Switch → List (List Char)
  | .help => ["-h".toList, "--help".toList]
  | .config => ["-c".toList, "--config".toList]
  | .json => ["--json".toList]

/-- Whether a value belongs to an option. -/
def takesValue : Switch → Bool
  | .config => true
  | .help | .json => false

/-- The option of a name. -/
def ofName? (switches : List Switch) (name : List Char) : Option Switch :=
  switches.find? (·.names.contains name)

end Switch

/-- What a word is. -/
inductive Word where
  | plain (text : String)
  /-- Two dashes: only plain words follow. -/
  | separator
  /-- Some options, of which the last may have a value, and perhaps letters
  behind them that mean nothing. -/
  | switches (all : List Switch) (value : Option String) (surplus : Bool)
  /-- An option that there is not. -/
  | unknown
  /-- Options that cannot stand together, or a value for one that takes
  none. -/
  | wrong
  deriving DecidableEq, Repr

namespace Word

-- =============================================================== one word

/-- The options that a value belongs to: the one in front of it, or, if that
is a letter and takes no value, those whose letters the value spells. Letters
that there are not mean nothing; an equals sign in front of the value or a
dash in it is an error. -/
def cluster (switches : List Switch) (s : Switch) (isLetter behindEquals : Bool) :
    List Char → Option Word
  | [] => if s.takesValue then some (.switches [s] (some "") false) else none
  | c :: rest =>
    if s.takesValue then some (.switches [s] (some (String.ofList (c :: rest))) false)
    else if !isLetter || behindEquals || c = '-' then none
    else
      match Switch.ofName? switches ['-', c] with
      | none => some (.switches [s] none true)
      | some next =>
        let found : Option Word := match rest with
          | [] => some (.switches [next] none false)
          | '=' :: rest => cluster switches next true true rest
          | c :: rest => cluster switches next true false (c :: rest)
        found.map fun w =>
          match w with
          | .switches all value surplus => .switches (s :: all) value surplus
          | w => w

/-- A word that is an option, from its name and what is behind that. -/
def ofSwitch (switches : List Switch) (s : Switch) (isLetter behindEquals : Bool)
    (value : Option (List Char)) : Word :=
  match value with
  | none => .switches [s] none false
  | some value => (cluster switches s isLetter behindEquals value).getD .wrong

/-- A name and the value behind an equals sign. -/
def splitValue (text : List Char) : List Char × Option (List Char) :=
  match text.dropWhile (· ≠ '=') with
  | [] => (text, none)
  | _ :: value => (text.takeWhile (· ≠ '='), some value)

/-- Whether one dash and not two begin a text. -/
def beginsWithOneDash (text : List Char) : Bool :=
  text.take 2 ≠ ['-', '-']

/-- The options that a text may be short for, or begins with. -/
def candidates (switches : List Switch) (text : List Char) :
    List (Switch × Option (List Char)) :=
  if beginsWithOneDash text then
    (switches.filter (·.names.contains (text.take 2))).map fun s => (s, some (text.drop 2))
  else
    let (start, value) := splitValue text
    switches.flatMap fun s => (s.names.filter start.isPrefixOf).map fun _ => (s, value)

/-- Whether a text is a negative number, perhaps with a line end behind it. -/
def isNegativeNumber (text : List Char) : Bool :=
  let text := if text.getLast? = some '\n' then text.dropLast else text
  let isDigit (c : Char) : Bool := (Text.decimalValue? c).isSome
  match text with
  | '-' :: body =>
    match body.dropWhile isDigit with
    | [] => !body.isEmpty
    | '.' :: places => !places.isEmpty && places.all isDigit
    | _ => false
  | _ => false

/-- What a text is as a word; nothing if it may be short for more than one
option. A number and a text with a blank in it are plain even behind a dash. -/
def ofText? (switches : List Switch) (text : String) : Option Word :=
  let cs := text.toList
  if cs.head? ≠ some '-' ∨ cs = ['-'] then some (.plain text)
  else if cs = ['-', '-'] then some .separator
  else
    match Switch.ofName? switches cs with
    | some s => some (.switches [s] none false)
    | none =>
      let (name, value) := splitValue cs
      match Switch.ofName? switches name with
      | some s => some (ofSwitch switches s (beginsWithOneDash name) true value)
      | none =>
        match candidates switches cs with
        | [(s, value)] =>
          let isLetter := beginsWithOneDash cs
          some (ofSwitch switches s isLetter (!isLetter) value)
        | [] => some (if isNegativeNumber cs ∨ cs.contains ' ' then .plain text else .unknown)
        | _ => none

-- ============================================================== all words

/-- The words of a command line; nothing if one of them may be short for more
than one option. -/
def all? (switches : List Switch) : List String → Option (List Word)
  | [] => some []
  | text :: rest => do
    match ← ofText? switches text with
    | .separator => return .separator :: rest.map .plain
    | word => return word :: (← all? switches rest)

end Word

end SamScript.CommandLine
