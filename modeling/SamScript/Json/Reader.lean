/-
Reading JSON. Beyond the standard, `NaN`, `Infinity` and `-Infinity` are
numbers; blanks are the space, the tabulator, the line feed and the carriage
return; a string holds no control character. A number with neither fraction
nor exponent is a whole number, whose digits are limited. Of a name that
occurs twice in an object the last value counts.
-/
import SamScript.Decimal.Read
import SamScript.Decimal.Syntax
import SamScript.Json.Basic
import SamScript.Reading

namespace SamScript.Json

open Decimal (isDigit takeFraction takeFraction_append)

-- ============================================================== the parts

/-- Why a text is no JSON value. -/
inductive Fault where
  | malformed
  /-- A whole number has too many digits. -/
  | tooLong (digits : Nat)
  /-- Arrays and objects nest deeper than the reader was allowed to go. -/
  | tooDeep
  deriving DecidableEq, Repr

def isBlank (c : Char) : Bool :=
  c = ' ' || c = '\t' || c = '\n' || c = '\r'

/-- The text after leading blanks. -/
def skipBlank (cs : List Char) : List Char :=
  cs.dropWhile isBlank

theorem length_skipBlank_le (cs : List Char) : (skipBlank cs).length ≤ cs.length :=
  length_dropWhile_le isBlank cs

/-- What comes after a character, if the text begins with it. -/
def after? (c : Char) (cs : List Char) : Option { rest : List Char // rest.length < cs.length } :=
  match cs with
  | d :: rest => if d = c then some ⟨rest, Nat.lt_succ_self _⟩ else none
  | [] => none

/-- The value of four hexadecimal digits, and what comes after them. -/
def fourDigits? : List Char → Option (Nat × List Char)
  | a :: b :: c :: d :: rest => do
    let value (c : Char) : Option Nat := if c.toNat < 0x80 then Decimal.digitValue? 16 c else none
    let a ← value a
    let b ← value b
    let c ← value c
    let d ← value d
    return (((a * 16 + b) * 16 + c) * 16 + d, rest)
  | _ => none

theorem length_of_fourDigits? {cs rest : List Char} {n : Nat}
    (h : fourDigits? cs = some (n, rest)) : rest.length < cs.length := by
  match cs with
  | [] | [_] | [_, _] | [_, _, _] => simp [fourDigits?] at h
  | a :: b :: c :: d :: r =>
    simp only [fourDigits?, Option.bind_eq_bind, Option.bind_eq_some_iff, Option.pure_def,
      Option.some.injEq, Prod.mk.injEq] at h
    obtain ⟨_, _, _, _, _, _, _, _, _, rfl⟩ := h
    simp only [List.length_cons]
    omega

/-- The character of a code unit, which may need the escape that follows as
its second half; a half on its own stands for U+FFFD. -/
def unitChar (unit : Nat) (rest : List Char) : Char × List Char :=
  if 0xD800 ≤ unit ∧ unit < 0xDC00 then
    match rest with
    | '\\' :: 'u' :: more =>
      match fourDigits? more with
      | some (low, after) =>
        if 0xDC00 ≤ low ∧ low < 0xE000 then
          (Char.ofNat (0x10000 + (unit - 0xD800) * 0x400 + (low - 0xDC00)), after)
        else ('\uFFFD', rest)
      | none => ('\uFFFD', rest)
    | _ => ('\uFFFD', rest)
  else if 0xDC00 ≤ unit ∧ unit < 0xE000 then ('\uFFFD', rest)
  else (Char.ofNat unit, rest)

theorem length_unitChar (unit : Nat) (rest : List Char) :
    (unitChar unit rest).2.length ≤ rest.length := by
  unfold unitChar
  split
  · split
    · split
      · rename_i h
        have := length_of_fourDigits? h
        split
        · simp only [List.length_cons]
          omega
        · simp
      · simp
    · simp
  · split <;> simp

/-- The character that a one-letter escape stands for. -/
def escape? : Char → Option Char
  | '"' => some '"'
  | '\\' => some '\\'
  | '/' => some '/'
  | 'b' => some '\x08'
  | 'f' => some '\x0c'
  | 'n' => some '\n'
  | 'r' => some '\r'
  | 't' => some '\t'
  | _ => none

/-- The rest of a string, after its opening quote. -/
def readString (cs : List Char) : Except Fault (Reading Char (List Char) cs.length) :=
  match cs with
  | [] => .error .malformed
  | '"' :: rest => .ok ⟨[], rest, by simp⟩
  | '\\' :: 'u' :: rest =>
    match h : fourDigits? rest with
    | none => .error .malformed
    | some (unit, after) =>
      have := length_of_fourDigits? h
      have hu := length_unitChar unit after
      match readString (unitChar unit after).2 with
      | .error fault => .error fault
      | .ok ⟨text, rest', hr⟩ => .ok ⟨(unitChar unit after).1 :: text, rest', by
          simp only [List.length_cons]; omega⟩
  | '\\' :: c :: rest =>
    match escape? c with
    | none => .error .malformed
    | some c =>
      match readString rest with
      | .error fault => .error fault
      | .ok ⟨text, rest', hr⟩ => .ok ⟨c :: text, rest', by simp only [List.length_cons]; omega⟩
  | c :: rest =>
    if c.toNat < 0x20 ∨ c = '\\' then .error .malformed
    else
      match readString rest with
      | .error fault => .error fault
      | .ok ⟨text, rest', hr⟩ => .ok ⟨c :: text, rest', by simp only [List.length_cons]; omega⟩
termination_by cs.length
decreasing_by all_goals (simp only [List.length_cons]; omega)

/-- The exponent of a number, its letter included, if there is one. -/
def takeExponent : List Char → List Char × List Char
  | [] => ([], [])
  | e :: rest =>
    let (sign, body) := match rest with
      | '+' :: more => (['+'], more)
      | '-' :: more => (['-'], more)
      | more => ([], more)
    let digits := body.takeWhile isDigit
    if (e = 'e' ∨ e = 'E') ∧ ¬digits.isEmpty then
      (e :: sign ++ digits, body.dropWhile isDigit)
    else ([], e :: rest)

/-- The value of a number's text. -/
def numberValue (sign whole fraction exponent : List Char) : Except Fault Json :=
  let text := sign ++ whole ++ fraction ++ exponent
  if fraction.isEmpty ∧ exponent.isEmpty then
    match Decimal.readInteger 10 text with
    | .ok n => .ok (.int n)
    | .error (.tooLong n) => .error (.tooLong n)
    | .error _ => .error .malformed
  else
    match Decimal.readDouble text with
    | .ok x => .ok (.float x)
    | .error _ => .error .malformed

theorem length_takeFraction (cs : List Char) : (takeFraction cs).2.length ≤ cs.length := by
  have := congrArg List.length (takeFraction_append cs)
  rw [List.length_append] at this
  omega

theorem length_takeExponent (cs : List Char) : (takeExponent cs).2.length ≤ cs.length := by
  unfold takeExponent
  split
  · simp
  · rename_i e rest
    split
    rename_i sign body hbody
    have hle : body.length ≤ rest.length := by
      split at hbody <;> (cases hbody; simp)
    have := length_dropWhile_le isDigit body
    simp only
    split
    · simp only [List.length_cons]
      omega
    · simp

/-- A number after its sign. -/
def readNumber (sign cs : List Char) : Except Fault (Reading Char Json cs.length) :=
  match cs with
  | [] => .error .malformed
  | d :: rest =>
    if isDigit d then
      let whole := if d = '0' then ['0'] else d :: rest.takeWhile isDigit
      let tail := if d = '0' then rest else rest.dropWhile isDigit
      let fraction := takeFraction tail
      let exponent := takeExponent fraction.2
      match numberValue sign whole fraction.1 exponent.1 with
      | .error fault => .error fault
      | .ok value => .ok ⟨value, exponent.2, by
          have h₁ : exponent.2.length ≤ fraction.2.length := length_takeExponent fraction.2
          have h₂ : fraction.2.length ≤ tail.length := length_takeFraction tail
          have h₃ : tail.length ≤ rest.length := by
            show (if d = '0' then rest else rest.dropWhile isDigit).length ≤ rest.length
            have := length_dropWhile_le isDigit rest
            split <;> omega
          simp only [List.length_cons]
          omega⟩
    else .error .malformed

/-- The words that stand for values. -/
def word? : List Char → Option (Json × List Char)
  | 'n' :: 'u' :: 'l' :: 'l' :: rest => some (.null, rest)
  | 't' :: 'r' :: 'u' :: 'e' :: rest => some (.bool true, rest)
  | 'f' :: 'a' :: 'l' :: 's' :: 'e' :: rest => some (.bool false, rest)
  | 'N' :: 'a' :: 'N' :: rest => some (.float Decimal.notANumber, rest)
  | 'I' :: 'n' :: 'f' :: 'i' :: 'n' :: 'i' :: 't' :: 'y' :: rest =>
    some (.float Decimal.infinity, rest)
  | '-' :: 'I' :: 'n' :: 'f' :: 'i' :: 'n' :: 'i' :: 't' :: 'y' :: rest =>
    some (.float (-Decimal.infinity), rest)
  | _ => none

theorem length_of_word? {cs rest : List Char} {v : Json} (h : word? cs = some (v, rest)) :
    rest.length < cs.length := by
  unfold word? at h
  split at h <;> first | (cases h; simp only [List.length_cons]; omega) | cases h

/-- A word at the front of a text. -/
def readWord? (cs : List Char) : Option (Reading Char Json cs.length) :=
  match h : word? cs with
  | some (value, rest) => some ⟨value, rest, length_of_word? h⟩
  | none => none

-- ============================================================== the whole

mutual

/-- A value at the front of a text. -/
def readValue (cs : List Char) : Except Fault (Reading Char Json cs.length) :=
  match readWord? cs with
  | some r => .ok r
  | none =>
    match cs with
    | '"' :: rest =>
      match readString rest with
      | .error fault => .error fault
      | .ok r => .ok ((r.map fun text => .string (String.ofList text)).widen (Nat.le_succ _))
    | '-' :: rest =>
      match readNumber ['-'] rest with
      | .error fault => .error fault
      | .ok r => .ok (r.widen (Nat.le_succ _))
    | '[' :: rest =>
      have shorter := length_skipBlank_le rest
      match after? ']' (skipBlank rest) with
      | some ⟨after, h⟩ => .ok ⟨.array [], after, by simp only [List.length_cons]; omega⟩
      | none =>
        match readItems (skipBlank rest) with
        | .error fault => .error fault
        | .ok r => .ok ((r.map .array).widen (Nat.le_succ_of_le shorter))
    | '\x7b' :: rest =>
      have shorter := length_skipBlank_le rest
      match after? '\x7d' (skipBlank rest) with
      | some ⟨after, h⟩ => .ok ⟨.object [], after, by simp only [List.length_cons]; omega⟩
      | none =>
        match readMembers [] (skipBlank rest) with
        | .error fault => .error fault
        | .ok r => .ok ((r.map .object).widen (Nat.le_succ_of_le shorter))
    | cs => readNumber [] cs
termination_by 2 * cs.length
decreasing_by all_goals (simp only [List.length_cons]; omega)

/-- The items of an array that is not empty, up to its closing bracket. -/
def readItems (cs : List Char) : Except Fault (Reading Char (List Json) cs.length) :=
  match readValue cs with
  | .error fault => .error fault
  | .ok ⟨value, rest, _⟩ =>
    have shorter := length_skipBlank_le rest
    match after? ']' (skipBlank rest) with
    | some ⟨after, h⟩ => .ok ⟨[value], after, by omega⟩
    | none =>
      match after? ',' (skipBlank rest) with
      | some ⟨after, h⟩ =>
        have shorter' := length_skipBlank_le after
        match readItems (skipBlank after) with
        | .error fault => .error fault
        | .ok r => .ok ((r.map (value :: ·)).widen (by omega))
      | none => .error .malformed
termination_by 2 * cs.length + 1
decreasing_by all_goals omega

/-- The members of an object that is not empty, up to its closing brace,
after the members read before. -/
def readMembers (before : List (String × Json)) (cs : List Char) :
    Except Fault (Reading Char (List (String × Json)) cs.length) :=
  match after? '"' cs with
  | none => .error .malformed
  | some ⟨rest, h⟩ =>
    match readString rest with
    | .error fault => .error fault
    | .ok ⟨name, rest₁, h₁⟩ =>
      have shorter₁ := length_skipBlank_le rest₁
      match after? ':' (skipBlank rest₁) with
      | none => .error .malformed
      | some ⟨rest₂, h₂⟩ =>
        have shorter₂ := length_skipBlank_le rest₂
        match readValue (skipBlank rest₂) with
        | .error fault => .error fault
        | .ok ⟨value, rest₃, h₃⟩ =>
          have shorter₃ := length_skipBlank_le rest₃
          let members := Bindings.insert (String.ofList name) value before
          match after? '\x7d' (skipBlank rest₃) with
          | some ⟨after, h₄⟩ => .ok ⟨members, after, by omega⟩
          | none =>
            match after? ',' (skipBlank rest₃) with
            | none => .error .malformed
            | some ⟨after, h₄⟩ =>
              have shorter₄ := length_skipBlank_le after
              match readMembers members (skipBlank after) with
              | .error fault => .error fault
              | .ok r => .ok (r.widen (by omega))
termination_by 2 * cs.length + 1
decreasing_by all_goals omega

end

/-- Reads a whole text, blanks around the value allowed. -/
def read? (cs : List Char) : Except Fault Json :=
  match readValue (skipBlank cs) with
  | .error fault => .error fault
  | .ok r => if (skipBlank r.rest).isEmpty then .ok r.value else .error .malformed

-- ============================================================== the depth

/-- Where a character stands with regard to strings. -/
inductive Standing where
  | outside
  | inside
  /-- Inside, behind a backslash. -/
  | escaped
  deriving DecidableEq, Repr

/-- How deep the brackets and braces of a text nest at most, those in strings
aside: `depth` are open, `greatest` is the answer so far. -/
def nestingFrom (depth greatest : Nat) : Standing → List Char → Nat
  | _, [] => greatest
  | .escaped, _ :: rest => nestingFrom depth greatest .inside rest
  | .inside, c :: rest =>
    if c = '\\' then nestingFrom depth greatest .escaped rest
    else if c = '"' then nestingFrom depth greatest .outside rest
    else nestingFrom depth greatest .inside rest
  | .outside, c :: rest =>
    if c = '"' then nestingFrom depth greatest .inside rest
    else if c = '[' ∨ c = '\x7b' then
      nestingFrom (depth + 1) (max greatest (depth + 1)) .outside rest
    else if c = ']' ∨ c = '\x7d' then nestingFrom (depth - 1) greatest .outside rest
    else nestingFrom depth greatest .outside rest

/-- Reads a whole text whose arrays and objects may nest `limit` deep; with
no limit, as deep as they like. -/
def readWithin (limit : Option Nat) (cs : List Char) : Except Fault Json :=
  match limit with
  | none => read? cs
  | some limit => if nestingFrom 0 0 .outside cs > limit then .error .tooDeep else read? cs

end SamScript.Json
