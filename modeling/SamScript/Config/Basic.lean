/-
The settings of a run, and which documents give some. A setting that a
document leaves out keeps its default; a name that is no setting, and a value
that a setting cannot take, are errors, in a fixed order.
-/
import SamScript.Config.Document
import SamScript.Diagnostic
import SamScript.Path

namespace SamScript

/-- The settings. -/
structure Config where
  /-- Runs the command lines of foreign functions. -/
  shell : String := "/bin/sh"
  /-- Where manifests with relative paths are looked for. -/
  interfaceRoot : Option String := none
  /-- Reads the output of programs. -/
  encoding : String := "utf-8"
  /-- How many calls may be active at once. -/
  maxCallDepth : Nat := 64
  /-- Variables that programs find beside those of the machine. -/
  env : Bindings String := []
  deriving DecidableEq, Repr

namespace Config

/-- The path of a manifest, from the root of the interfaces if it is
relative. -/
def resolveManifest (config : Config) (path : String) : Path :=
  let manifest := Path.ofText path
  match config.interfaceRoot with
  | some root => if root.isEmpty then manifest else (Path.ofText root).join manifest
  | none => manifest

-- =============================================================== failures

/-- Why a document gives no settings. -/
inductive Fault where
  | unknownKeys (names : List String)
  | shell
  | interfaceRoot
  | encoding
  | maxCallDepth
  | env
  | notFound (path : String)
  | malformed (path : String)
  | notMapping (path type : String)
  deriving DecidableEq, Repr

def Fault.message : Fault → String
  | .unknownKeys names => "unknown configuration key(s): " ++ ", ".intercalate names
  | .shell => "'shell' must be a non-empty string"
  | .interfaceRoot => "'interface_root' must be a string"
  | .encoding => "'encoding' must be a string"
  | .maxCallDepth => "'max_call_depth' must be a positive integer"
  | .env => "'env' must be a mapping"
  | .notFound path => s!"configuration file not found: {path}"
  | .malformed path => s!"YAML parse error in {path}: the text is no document"
  | .notMapping path type => s!"expected mapping at root of {path}, got {type}"

def Fault.diagnostic (f : Fault) : Diagnostic :=
  { code := "C001", message := f.message }

/-- Why there are no settings: a fault that is reported, keys that the report
itself cannot put into words, or a variable that cannot be written out. -/
inductive Failure where
  | fault (f : Fault)
  /-- An unknown key is no text; this is the name of its type. -/
  | keyNotText (type : String)
  /-- Unknown keys of two types have no order. -/
  | keysUnordered (left right : String)
  /-- A variable holds a whole number with too many digits. -/
  | numberTooLong
  deriving DecidableEq, Repr

/-- A failure that is not reported, in words. -/
def Failure.message : Failure → String
  | .fault f => f.message
  | .keyNotText type => s!"sequence item 0: expected str instance, {type} found"
  | .keysUnordered left right =>
    s!"'<' not supported between instances of '{left}' and '{right}'"
  | .numberTooLong =>
    s!"Exceeds the limit ({Decimal.digitLimit} digits) for integer string conversion; "
      ++ "use sys.set_int_max_str_digits() to increase the limit"

-- =============================================================== settings

/-- The names of the settings. -/
def settings : List String :=
  ["shell", "interface_root", "encoding", "max_call_depth", "env"]

/-- Whether a key names a setting. -/
def isSetting : Document → Bool
  | .text name => settings.contains name
  | _ => false

/-- The text that a value is, if it is text. -/
def text? : Document → Option String
  | .text name => some name
  | _ => none

/-- What the type of a key is called where keys are joined. -/
def keyTypeName : Document → String
  | .day _ => "datetime.date"
  | .moment _ => "datetime.datetime"
  | d => d.typeName

/-- The number that a key is, if it is one. -/
def keyNumber? : Document → Option Float
  | .bool b => some (if b then 1.0 else 0.0)
  | .int n => some (Float.ofInt n)
  | .float x => some x
  | _ => none

/-- What is wrong with keys that name no setting, if there are any: in order,
by their first that is no text or by all their names. -/
def unknownKeys? (keys : List Document) : Option Failure :=
  match keys with
  | [] => none
  | first :: rest =>
    match keys.mapM text? with
    | some names => some (.fault (.unknownKeys (names.mergeSort (· ≤ ·))))
    | none =>
      if rest.isEmpty then some (.keyNotText (keyTypeName first))
      else
        match keys.mapM fun k => (keyNumber? k).map (·, k) with
        | some numbered =>
          let least := numbered.foldl (fun a b => if b.1 < a.1 then b else a)
            ((keyNumber? first).getD 0.0, first)
          some (.keyNotText (keyTypeName least.2))
        | none =>
          match rest.find? fun k => k.typeName ≠ first.typeName with
          | some other => some (.keysUnordered (keyTypeName other) (keyTypeName first))
          | none => some (.keyNotText (keyTypeName first))

/-- The value of a setting in a mapping. -/
def setting? (name : String) : List (Document × Document) → Option Document
  | [] => none
  | (key, value) :: rest => if text? key = some name then some value else setting? name rest

/-- A setting of a mapping: its default if the mapping leaves it out, else
what its value is read as. -/
def setting {α : Type} (name : String) (fault : Fault) (default : α) (read? : Document → Option α)
    (entries : List (Document × Document)) : Except Failure α :=
  match setting? name entries with
  | none => .ok default
  | some value =>
    match read? value with
    | some a => .ok a
    | none => .error (.fault fault)

/-- A text that is not empty. -/
def program? : Document → Option String
  | .text s => if s.isEmpty then none else some s
  | _ => none

/-- A text, or none where there is null. -/
def root? : Document → Option (Option String)
  | .null => some none
  | .text s => some (some s)
  | _ => none

/-- A whole number above zero. Truth values are none. -/
def depth? : Document → Option Nat
  | .int n => if n < 1 then none else some n.toNat
  | _ => none

/-- The entries of a mapping. -/
def entries? : Document → Option (List (Document × Document))
  | .mapping entries => some entries
  | _ => none

/-- Variables as texts, if all of them can be written out. -/
def environment (entries : List (Document × Document)) : Except Failure (Bindings String) :=
  if Document.entriesAreWritable entries then
    .ok (Bindings.ofList (entries.map fun (k, v) => (k.plainText, v.plainText)))
  else .error .numberTooLong

/-- The settings of a mapping. -/
def ofEntries (entries : List (Document × Document)) : Except Failure Config := do
  if let some failure := unknownKeys? ((entries.map Prod.fst).filter fun k => !isSetting k) then
    throw failure
  let shell ← setting "shell" .shell "/bin/sh" program? entries
  let interfaceRoot ← setting "interface_root" .interfaceRoot none root? entries
  let encoding ← setting "encoding" .encoding "utf-8" text? entries
  let maxCallDepth ← setting "max_call_depth" .maxCallDepth 64 depth? entries
  let env ← environment (← setting "env" .env [] entries? entries)
  return { shell, interfaceRoot, encoding, maxCallDepth, env }

/-- The settings of a document read from a path: the defaults if it stands
for nothing, else those of a mapping. -/
def ofDocument (path : String) (document : Document) : Except Failure Config :=
  match document with
  | .mapping entries => ofEntries entries
  | d => if d.isEmpty then .ok {} else .error (.fault (.notMapping path d.typeName))

end Config

end SamScript
