/-
Conditions on texts, numbers and files, as the shell's `test` knows them.
With up to three arguments their number decides what they mean; more are
read as an expression.
-/
import SamScript.Machine.Files
import SamScript.Machine.Print

namespace SamScript.Machine.Test

/-- A condition that cannot be decided, in words. -/
abbrev Outcome := Except Octets Bool

/-- The operators on one argument. -/
def unary : List String :=
  ["-e", "-f", "-d", "-r", "-w", "-x", "-s", "-n", "-z", "-h", "-L", "-p", "-S", "-b", "-c", "-t"]

/-- The operators on two arguments. -/
def binary : List String :=
  ["=", "!=", "<", ">", "-eq", "-ne", "-gt", "-ge", "-lt", "-le"]

def isUnary (a : Octets) : Bool :=
  unary.contains (String.ofList a)

def isBinary (a : Octets) : Bool :=
  binary.contains (String.ofList a)

/-- A whole number that an argument has to be. -/
def number (a : Octets) : Except Octets Int :=
  let n := Printf.wholeNumber a
  if n.found && (n.rest.dropWhile Printf.isSpace).isEmpty then .ok n.value
  else .error (Octets.ofText "Illegal number: " ++ a)

/-- A condition on one argument. -/
def one (files : Files) (working : Route) (op a : Octets) : Bool :=
  let item := (files.find working a).toOption.map Prod.snd
  match String.ofList op, item with
  | "-n", _ => !a.isEmpty
  | "-z", _ => a.isEmpty
  | "-e", i | "-r", i | "-w", i => i.isSome
  | "-f", some (.file _ _) | "-f", some (.tool _) => true
  | "-d", some .directory => true
  | "-x", some (.file _ x) => x
  | "-x", some (.tool _) | "-x", some .directory => true
  | "-s", some (.file bytes _) => !bytes.isEmpty
  | "-s", some (.tool _) | "-s", some .directory => true
  | "-c", some .null => true
  | _, _ => false

/-- A condition on two arguments. -/
def two (op a b : Octets) : Outcome :=
  let compare (holds : Int → Int → Bool) : Outcome := do
    let x ← number a
    let y ← number b
    return holds x y
  match String.ofList op with
  | "=" => .ok (a = b)
  | "!=" => .ok (a ≠ b)
  | "<" => .ok (a < b)
  | ">" => .ok (b < a)
  | "-eq" => compare (· = ·)
  | "-ne" => compare (· ≠ ·)
  | "-gt" => compare (· > ·)
  | "-ge" => compare (· ≥ ·)
  | "-lt" => compare (· < ·)
  | _ => compare (· ≤ ·)

/-- A complaint about an argument. -/
def unexpected {α : Type} (a : Octets) : Except Octets α :=
  .error (a ++ Octets.ofText ": unexpected operator")

mutual

/-- Conditions of which one has to hold. -/
def anyOf (files : Files) (working : Route) : Nat → List Octets → Except Octets (Bool × List Octets)
  | 0, args => unexpected (args.headD [])
  | n + 1, args => do
    let (a, rest) ← allOf files working n args
    match rest with
    | ['-', 'o'] :: rest =>
      let (b, rest) ← anyOf files working n rest
      return (a || b, rest)
    | rest => return (a, rest)

/-- Conditions that all have to hold. -/
def allOf (files : Files) (working : Route) : Nat → List Octets → Except Octets (Bool × List Octets)
  | 0, args => unexpected (args.headD [])
  | n + 1, args => do
    let (a, rest) ← single files working n args
    match rest with
    | ['-', 'a'] :: rest =>
      let (b, rest) ← allOf files working n rest
      return (a && b, rest)
    | rest => return (a, rest)

/-- A single condition, perhaps negated or in brackets. -/
def single (files : Files) (working : Route) : Nat → List Octets → Except Octets (Bool × List Octets)
  | 0, args => unexpected (args.headD [])
  | n + 1, args =>
    match args with
    | a :: op :: b :: rest =>
      if isBinary op then (two op a b).map (·, rest)
      else prefixed files working n args
    | [a, op] =>
      if isBinary op && !isUnary a && a ≠ ['!'] && a ≠ ['('] then
        .error (op ++ Octets.ofText ": argument expected")
      else prefixed files working n args
    | args => prefixed files working n args

def prefixed (files : Files) (working : Route) : Nat → List Octets →
    Except Octets (Bool × List Octets)
  | 0, args => unexpected (args.headD [])
  | n + 1, args =>
    match args with
    | [] => .ok (false, [])
    | [a] => .ok (!a.isEmpty, [])
    | ['!'] :: rest => (single files working n rest).map fun (b, rest) => (!b, rest)
    | ['('] :: rest => do
      let (b, rest) ← anyOf files working n rest
      match rest with
      | [')'] :: rest => return (b, rest)
      | _ => throw (Octets.ofText "closing paren expected")
    | op :: a :: rest =>
      if isUnary op then .ok (one files working op a, rest) else .ok (!op.isEmpty, a :: rest)

end

/-- Whether the condition of some arguments holds. -/
def run (files : Files) (working : Route) (args : List Octets) : Outcome :=
  match args with
  | [] => .ok false
  | args => do
    let (b, rest) ← anyOf files working (4 * args.length + 4) args
    if rest.isEmpty then return b
    else unexpected (args.getD (args.length - rest.length - 1) [])

end SamScript.Machine.Test
