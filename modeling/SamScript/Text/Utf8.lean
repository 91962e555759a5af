/-
UTF-8, both ways. `encode` writes characters as bytes; `decode?` reads bytes
back and says where and why it cannot; `decodeLossy` reads any bytes, with
U+FFFD in place of each maximal run that begins no character.

Both readers share one step, `readChar`, so they agree on where a character
or a flaw ends. A flaw's length is the longest beginning of a well-formed
sequence that the bytes hold, and at least one byte: that is the run which
the Unicode standard asks to be replaced by a single U+FFFD.
-/
namespace SamScript.Utf8

-- ============================================================ writing

/-- The bytes of a text, each character in its only well-formed form. -/
def encode (text : List Char) : List UInt8 :=
  text.flatMap String.utf8EncodeChar

theorem encode_append (a b : List Char) : encode (a ++ b) = encode a ++ encode b := by
  simp [encode]

/-- The number of bytes of a text. -/
def width : List Char → Nat
  | [] => 0
  | c :: rest => c.utf8Size + width rest

theorem length_encode (text : List Char) : (encode text).length = width text := by
  induction text with
  | nil => rfl
  | cons c rest ih => simp_all [encode, width, String.length_utf8EncodeChar]

-- =========================================================== one step

/-- Why no character begins at some place. The count says how many bytes
make up the failed beginning. -/
inductive Flaw where
  /-- The first byte leads no sequence. -/
  | start
  /-- A byte of the sequence is not one that may follow. -/
  | continuation (count : Nat)
  /-- The bytes end inside the sequence. -/
  | truncated (count : Nat)
  deriving DecidableEq, Repr

/-- How many bytes the flaw takes up. -/
def Flaw.count : Flaw → Nat
  | .start => 1
  | .continuation n => n
  | .truncated n => n

/-- The ranges that the bytes after a leading byte lie in, with the bits the
leading byte itself contributes; nothing for a byte that leads no sequence.
The narrower second ranges keep out overlong forms, surrogates and code
points past U+10FFFF. -/
def lead (b : UInt8) : Option (Nat × List (UInt8 × UInt8)) :=
  let any : UInt8 × UInt8 := (0x80, 0xBF)
  if b < 0x80 then some (b.toNat, [])
  else if b < 0xC2 then none
  else if b < 0xE0 then some (b.toNat % 32, [any])
  else if b = 0xE0 then some (0, [(0xA0, 0xBF), any])
  else if b = 0xED then some (13, [(0x80, 0x9F), any])
  else if b < 0xF0 then some (b.toNat % 16, [any, any])
  else if b = 0xF0 then some (0, [(0x90, 0xBF), any, any])
  else if b < 0xF4 then some (b.toNat % 8, [any, any, any])
  else if b = 0xF4 then some (4, [(0x80, 0x8F), any, any])
  else none

/-- Reads the bytes that have to follow, with the code point so far and the
number of bytes read so far. -/
def follow : List (UInt8 × UInt8) → Nat → Nat → List UInt8 → Except Flaw (Nat × List UInt8)
  | [], code, _, rest => .ok (code, rest)
  | _ :: _, _, seen, [] => .error (.truncated seen)
  | (lo, hi) :: more, code, seen, b :: rest =>
    if lo ≤ b ∧ b ≤ hi then follow more (code * 64 + b.toNat % 64) (seen + 1) rest
    else .error (.continuation seen)

/-- Reads one character from a leading byte and what comes after it. -/
def readChar (b : UInt8) (rest : List UInt8) : Except Flaw (Char × List UInt8) :=
  match lead b with
  | none => .error .start
  | some (code, ranges) => (follow ranges code 1 rest).map fun (code, rest) => (Char.ofNat code, rest)

theorem length_of_follow {ranges : List (UInt8 × UInt8)} {code seen : Nat}
    {bytes rest : List UInt8} {code' : Nat}
    (h : follow ranges code seen bytes = .ok (code', rest)) : rest.length ≤ bytes.length := by
  induction ranges generalizing code seen bytes with
  | nil => cases h; simp
  | cons r more ih =>
    cases bytes with
    | nil => simp [follow] at h
    | cons b bs =>
      simp only [follow] at h
      split at h
      · exact Nat.le_succ_of_le (ih h)
      · cases h

theorem length_of_readChar {b : UInt8} {bytes rest : List UInt8} {c : Char}
    (h : readChar b bytes = .ok (c, rest)) : rest.length ≤ bytes.length := by
  unfold readChar at h
  split at h
  · cases h
  · rename_i code ranges _
    cases hf : follow ranges code 1 bytes with
    | error e => rw [hf] at h; cases h
    | ok p =>
      rw [hf] at h
      cases h
      exact length_of_follow hf

-- ============================================================ reading

/-- Where and why bytes are not UTF-8. -/
structure Broken where
  flaw : Flaw
  /-- How many bytes come before the flaw. -/
  position : Nat
  /-- The first byte of the flaw. -/
  byte : UInt8
  deriving DecidableEq, Repr

/-- Reads bytes that begin at `position`, up to the first flaw. -/
def decodeFrom (position : Nat) : List UInt8 → Except Broken (List Char)
  | [] => .ok []
  | b :: bytes =>
    match h : readChar b bytes with
    | .error flaw => .error ⟨flaw, position, b⟩
    | .ok (c, rest) =>
      (decodeFrom (position + (bytes.length + 1 - rest.length)) rest).map (c :: ·)
termination_by bytes => bytes.length
decreasing_by
  have := length_of_readChar h
  simp only [List.length_cons]
  omega

/-- Reads bytes that have to be UTF-8 throughout. -/
def decode? (bytes : List UInt8) : Except Broken (List Char) :=
  decodeFrom 0 bytes

/-- Reads bytes that have to be UTF-8 throughout and arrive one after the
other: a character that is cut off shows as such only when no more bytes
come, and by then everything before it has been left behind. -/
def decodeArriving? (bytes : List UInt8) : Except Broken (List Char) :=
  (decode? bytes).mapError fun e =>
    match e.flaw with
    | .truncated _ => { e with position := 0 }
    | _ => e

/-- Reads any bytes, a flaw as one U+FFFD. -/
def decodeLossy : List UInt8 → List Char
  | [] => []
  | b :: bytes =>
    match h : readChar b bytes with
    | .error flaw => '\uFFFD' :: decodeLossy (bytes.drop (flaw.count - 1))
    | .ok (c, rest) => c :: decodeLossy rest
termination_by bytes => bytes.length
decreasing_by
  · simp only [List.length_cons, List.length_drop]
    omega
  · have := length_of_readChar h
    simp only [List.length_cons]
    omega

-- ========================================================== its wording

/-- Two hexadecimal digits, in lower case. -/
def hexByte (b : UInt8) : String :=
  let digits := Nat.toDigits 16 b.toNat
  String.ofList (List.replicate (2 - digits.length) '0' ++ digits)

/-- The flaw in words. -/
def Flaw.reason : Flaw → String
  | .start => "invalid start byte"
  | .continuation _ => "invalid continuation byte"
  | .truncated _ => "unexpected end of data"

/-- One byte is named by its value, several by the positions they span. -/
def Broken.message (e : Broken) : String :=
  let place :=
    if e.flaw.count = 1 then s!"byte 0x{hexByte e.byte} in position {e.position}"
    else s!"bytes in position {e.position}-{e.position + e.flaw.count - 1}"
  s!"'utf-8' codec can't decode {place}: {e.flaw.reason}"

end SamScript.Utf8
