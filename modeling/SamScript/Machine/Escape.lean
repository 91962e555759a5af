/-
Escape sequences in the texts that `echo` and `printf` print. Which ones
there are depends on who prints; a backslash that begins none stands for
itself.
-/
import SamScript.Machine.Octets

namespace SamScript.Machine

/-- Which escape sequences there are beside those of single letters and of
octal digits. -/
structure Escapes where
  /-- A `c` ends all printing. -/
  stops : Bool := false
  /-- A zero may come before the three octal digits. -/
  leadingZero : Bool := false
  /-- An `e` is the escape character. -/
  escapeChar : Bool := false
  /-- A double quote may be escaped. -/
  quote : Bool := false
  /-- An `x` comes before hexadecimal digits. -/
  hex : Bool := false
  /-- A `u` or a `U` comes before the digits of a code point. -/
  codePoint : Bool := false
  /-- Digits that have to follow but do not are an error. -/
  strict : Bool := false

namespace Escapes

/-- What an escape sequence comes to. -/
inductive Result where
  | text (t : Octets) (rest : Octets)
  | stop
  | missingDigits

/-- The characters that single letters escape. -/
def letter? : Char → Option Char
  | 'a' => some '\x07'
  | 'b' => some '\x08'
  | 'f' => some '\x0c'
  | 'n' => some '\n'
  | 'r' => some '\r'
  | 't' => some '\t'
  | 'v' => some '\x0b'
  | '\\' => some '\\'
  | _ => none

def digit? (base : Nat) (c : Char) : Option Nat :=
  let value :=
    if '0' ≤ c ∧ c ≤ '9' then some (c.toNat - '0'.toNat)
    else if 'a' ≤ c ∧ c ≤ 'f' then some (c.toNat - 'a'.toNat + 10)
    else if 'A' ≤ c ∧ c ≤ 'F' then some (c.toNat - 'A'.toNat + 10)
    else none
  value.filter (· < base)

/-- Up to `most` digits at the front of a text, as a number, with how many
there were. -/
def digits (base : Nat) : Nat → Octets → Nat × Nat × Octets
  | most, text => go most 0 0 text
where
  go : Nat → Nat → Nat → Octets → Nat × Nat × Octets
    | most + 1, value, count, c :: rest =>
      match digit? base c with
      | some d => go most (value * base + d) (count + 1) rest
      | none => (value, count, c :: rest)
    | _, value, count, rest => (value, count, rest)

/-- The byte of a number, which wraps. -/
def byte (n : Nat) : Octets :=
  [Octets.ofByte (UInt8.ofNat n)]

/-- The escape sequence at the front of what follows a backslash. -/
def read (e : Escapes) (text : Octets) : Result :=
  match text with
  | [] => .text ['\\'] []
  | c :: rest =>
    match letter? c with
    | some decoded => .text [decoded] rest
    | none =>
      if c = 'c' ∧ e.stops then .stop
      else if c = 'e' ∧ e.escapeChar then .text ['\x1b'] rest
      else if c = '"' ∧ e.quote then .text ['"'] rest
      else if c = '0' ∧ e.leadingZero then
        let (value, _, rest) := digits 8 3 rest
        .text (byte value) rest
      else if (digit? 8 c).isSome then
        let (value, _, rest) := digits 8 3 text
        .text (byte value) rest
      else if c = 'x' ∧ e.hex then
        let (value, count, after) := digits 16 2 rest
        if count = 0 then if e.strict then .missingDigits else .text ['\\', c] rest
        else .text (byte value) after
      else if (c = 'u' ∨ c = 'U') ∧ e.codePoint then
        let size := if c = 'u' then 4 else 8
        let (value, count, after) := digits 16 size rest
        if count < size then .missingDigits
        else .text (Octets.ofBytes (Utf8.encode [Char.ofNat value])) after
      else .text ['\\'] text

/-- What a text prints as, and whether printing goes on after it. The first
argument bounds the number of steps; the length of the text is enough. -/
def expand (e : Escapes) : Nat → Octets → Octets × Bool
  | _, [] => ([], true)
  | 0, rest => (rest, true)
  | n + 1, c :: rest =>
    if c = '\\' then
      match e.read rest with
      | .text t rest =>
        let (more, goesOn) := expand e n rest
        (t ++ more, goesOn)
      | .stop => ([], false)
      | .missingDigits => ([], false)
    else
      let (more, goesOn) := expand e n rest
      (c :: more, goesOn)

end Escapes

end SamScript.Machine
