/-
Sums: the arithmetic that the shell knows, on 64-bit words. A sum is read as
a whole before any of it is computed; operands that a logical operator or a
choice leaves out are not computed at all.
-/
import SamScript.Machine.Print

namespace SamScript.Machine.Shell

/-- An operator on two words. -/
inductive WordOperator where
  | add | subtract | multiply | divide | remainder
  | shiftLeft | shiftRight
  | less | lessEqual | greater | greaterEqual | equal | notEqual
  | bitAnd | bitXor | bitOr
  deriving DecidableEq, Repr

/-- A sum. -/
inductive Sum where
  | number (n : Int64)
  | variable (name : Octets)
  | negate (a : Sum)
  | not (a : Sum)
  | complement (a : Sum)
  | binary (op : WordOperator) (a b : Sum)
  | and (a b : Sum)
  | or (a b : Sum)
  | choose (test a b : Sum)
  /-- Sets a variable, perhaps to what an operator makes of its value. -/
  | assign (name : Octets) (op : Option WordOperator) (a : Sum)

/-- Why a sum has no value. -/
inductive SumFault where
  | expectingPrimary
  | expectingEnd
  | expectingBracket
  | expectingColon
  | divisionByZero
  /-- The value of a variable is no number. -/
  | illegalNumber (text : Octets)

namespace Sum

-- ============================================================== reading

/-- A part of a sum. -/
inductive Part where
  | number (n : Int64)
  | name (n : Octets)
  | operator (text : String)

/-- The operators of sums, longer ones before those they begin with. -/
def operators : List String :=
  ["<<=", ">>=", "<<", ">>", "<=", ">=", "==", "!=", "&&", "||", "+=", "-=", "*=", "/=", "%=",
    "&=", "^=", "|=", "<", ">", "=", "&", "|", "^", "+", "-", "*", "/", "%", "!", "~", "?", ":",
    "(", ")"]

/-- The number at the front of a text. -/
def readNumber (text : Octets) : Int64 × Octets :=
  let n := Printf.cutSigned (Printf.wholeNumber text)
  (Int64.ofInt n.value, n.rest)

/-- Reads the parts of a sum. The first argument bounds the number of steps;
what cannot be read is an operator that there is not. -/
def parts : Nat → Octets → List Part
  | 0, _ => []
  | n + 1, text =>
    match text with
    | [] => []
    | c :: rest =>
      if Printf.isSpace c then parts n rest
      else if c.isDigit then
        let (value, rest) := readNumber text
        .number value :: parts n rest
      else if c = '_' || c.isAlpha then
        let isPart (c : Char) : Bool := c = '_' || c.isAlphanum
        .name (text.takeWhile isPart) :: parts n (text.dropWhile isPart)
      else
        match operators.find? fun op => op.toList.isPrefixOf text with
        | some op => .operator op :: parts n (text.drop op.length)
        | none => [.operator ""]

/-- The operators on two operands, with how tightly they bind. -/
def binary? : String → Option (Nat × WordOperator)
  | "|" => some (3, .bitOr)
  | "^" => some (4, .bitXor)
  | "&" => some (5, .bitAnd)
  | "==" => some (6, .equal)
  | "!=" => some (6, .notEqual)
  | "<" => some (7, .less)
  | "<=" => some (7, .lessEqual)
  | ">" => some (7, .greater)
  | ">=" => some (7, .greaterEqual)
  | "<<" => some (8, .shiftLeft)
  | ">>" => some (8, .shiftRight)
  | "+" => some (9, .add)
  | "-" => some (9, .subtract)
  | "*" => some (10, .multiply)
  | "/" => some (10, .divide)
  | "%" => some (10, .remainder)
  | _ => none

/-- The operator that an assignment applies first. -/
def assignment? : String → Option (Option WordOperator)
  | "=" => some none
  | "+=" => some (some .add)
  | "-=" => some (some .subtract)
  | "*=" => some (some .multiply)
  | "/=" => some (some .divide)
  | "%=" => some (some .remainder)
  | "<<=" => some (some .shiftLeft)
  | ">>=" => some (some .shiftRight)
  | "&=" => some (some .bitAnd)
  | "^=" => some (some .bitXor)
  | "|=" => some (some .bitOr)
  | _ => none

mutual

/-- An assignment, or a choice. -/
def whole : Nat → List Part → Except SumFault (Sum × List Part)
  | 0, _ => .error .expectingPrimary
  | n + 1, ps =>
    let assigned : Option (Octets × Option WordOperator × List Part) := match ps with
      | .name x :: .operator op :: rest => (assignment? op).map fun a => (x, a, rest)
      | _ => none
    match assigned with
    | some (x, op, rest) => do
      let (a, rest) ← whole n rest
      return (.assign x op a, rest)
    | none => do
      let (test, rest) ← joined n 1 ps
      match rest with
      | .operator "?" :: rest =>
        let (a, rest) ← whole n rest
        match rest with
        | .operator ":" :: rest =>
          let (b, rest) ← whole n rest
          return (.choose test a b, rest)
        | _ => throw .expectingColon
      | rest => return (test, rest)

/-- Operands joined by operators that bind at least as tightly as `least`. -/
def joined : Nat → Nat → List Part → Except SumFault (Sum × List Part)
  | 0, _, _ => .error .expectingPrimary
  | n + 1, least, ps => do
    let (a, rest) ← operand n ps
    joinedFrom n least a rest

def joinedFrom : Nat → Nat → Sum → List Part → Except SumFault (Sum × List Part)
  | 0, _, _, _ => .error .expectingPrimary
  | n + 1, least, a, ps =>
    match ps with
    | .operator op :: rest =>
      if op = "||" && least ≤ 1 then do
        let (b, rest) ← joined n 2 rest
        joinedFrom n least (.or a b) rest
      else if op = "&&" && least ≤ 2 then do
        let (b, rest) ← joined n 3 rest
        joinedFrom n least (.and a b) rest
      else
        match binary? op with
        | some (level, o) =>
          if least ≤ level then do
            let (b, rest) ← joined n (level + 1) rest
            joinedFrom n least (.binary o a b) rest
          else .ok (a, ps)
        | none => .ok (a, ps)
    | _ => .ok (a, ps)

def operand : Nat → List Part → Except SumFault (Sum × List Part)
  | 0, _ => .error .expectingPrimary
  | n + 1, ps =>
    match ps with
    | .number v :: rest => .ok (.number v, rest)
    | .name x :: rest => .ok (.variable x, rest)
    | .operator op :: rest =>
      if op = "+" then operand n rest
      else if op = "-" then (operand n rest).map fun (a, rest) => (.negate a, rest)
      else if op = "!" then (operand n rest).map fun (a, rest) => (.not a, rest)
      else if op = "~" then (operand n rest).map fun (a, rest) => (.complement a, rest)
      else if op = "(" then do
        let (a, rest) ← whole n rest
        match rest with
        | .operator ")" :: rest => return (a, rest)
        | _ => throw .expectingBracket
      else .error .expectingPrimary
    | [] => .error .expectingPrimary

end

/-- The sum that a text spells. -/
def read (text : Octets) : Except SumFault Sum := do
  let ps := parts (text.length + 1) text
  let (s, rest) ← whole (16 * ps.length + 16) ps
  if rest.isEmpty then return s else throw .expectingEnd

-- ============================================================ computing

/-- The value of an operator. -/
def apply (op : WordOperator) (a b : Int64) : Except SumFault Int64 :=
  let test (b : Bool) : Except SumFault Int64 := .ok (if b then 1 else 0)
  match op with
  | .add => .ok (a + b)
  | .subtract => .ok (a - b)
  | .multiply => .ok (a * b)
  | .divide => if b = 0 then .error .divisionByZero else .ok (a / b)
  | .remainder => if b = 0 then .error .divisionByZero else .ok (a % b)
  | .shiftLeft => .ok (a <<< b)
  | .shiftRight => .ok (a >>> b)
  | .less => test (a < b)
  | .lessEqual => test (a ≤ b)
  | .greater => test (b < a)
  | .greaterEqual => test (b ≤ a)
  | .equal => test (a = b)
  | .notEqual => test (a ≠ b)
  | .bitAnd => .ok (a &&& b)
  | .bitXor => .ok (a ^^^ b)
  | .bitOr => .ok (a ||| b)

/-- The values that a sum has given to variables, the latest first. -/
abbrev Assigned := List (Octets × Int64)

/-- The value of a variable: what the sum gave it, or what it was before. -/
def lookup (before : Octets → Option Octets) (assigned : Assigned) (name : Octets) :
    Except SumFault Int64 :=
  match assigned.lookup name with
  | some v => .ok v
  | none =>
    match before name with
    | none => .ok 0
    | some text =>
      let (v, rest) := readNumber text
      if (rest.dropWhile Printf.isSpace).isEmpty then .ok v else .error (.illegalNumber text)

/-- The value of a sum, with what it gave to variables. -/
def eval (before : Octets → Option Octets) : Sum → Assigned → Except SumFault (Int64 × Assigned)
  | .number n, s => .ok (n, s)
  | .variable x, s => (lookup before s x).map (·, s)
  | .negate a, s => (eval before a s).map fun (v, s) => (-v, s)
  | .not a, s => (eval before a s).map fun (v, s) => (if v = 0 then 1 else 0, s)
  | .complement a, s => (eval before a s).map fun (v, s) => (~~~v, s)
  | .binary op a b, s => do
    let (x, s) ← eval before a s
    let (y, s) ← eval before b s
    return (← apply op x y, s)
  | .and a b, s => do
    let (x, s) ← eval before a s
    if x = 0 then return (0, s)
    else
      let (y, s) ← eval before b s
      return (if y = 0 then 0 else 1, s)
  | .or a b, s => do
    let (x, s) ← eval before a s
    if x ≠ 0 then return (1, s)
    else
      let (y, s) ← eval before b s
      return (if y = 0 then 0 else 1, s)
  | .choose test a b, s => do
    let (x, s) ← eval before test s
    if x ≠ 0 then eval before a s else eval before b s
  | .assign x op a, s => do
    let (v, s) ← eval before a s
    let v ← match op with
      | none => pure v
      | some op => apply op (← lookup before s x) v
    return (v, (x, v) :: s)

end Sum

/-- A fault in words, for the sum that it is about. -/
def SumFault.message (f : SumFault) (sum : Octets) : Octets :=
  let about (what : String) : Octets :=
    Octets.ofText s!"arithmetic expression: {what}: \"" ++ sum ++ ['"']
  match f with
  | .expectingPrimary => about "expecting primary"
  | .expectingEnd => about "expecting EOF"
  | .expectingBracket => about "expecting ')'"
  | .expectingColon => about "expecting ':'"
  | .divisionByZero => about "division by zero"
  | .illegalNumber text => Octets.ofText "Illegal number: " ++ text

end SamScript.Machine.Shell
