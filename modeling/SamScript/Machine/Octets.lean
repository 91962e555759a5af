/-
Text as programs see it. A program reads and writes bytes and gives most of
them no meaning; so inside the machine a text is a list of characters, one
for each byte, and the character of a byte beyond ASCII stands for that byte
alone.
-/
import SamScript.Text.Utf8

namespace SamScript.Machine

/-- A text with one character for each byte. -/
abbrev Octets := List Char

namespace Octets

/-- The character that stands for a byte. -/
def ofByte (b : UInt8) : Char :=
  Char.ofNat b.toNat

/-- The byte that a character stands for. -/
def toByte (c : Char) : UInt8 :=
  UInt8.ofNat c.toNat

def ofBytes (bytes : List UInt8) : Octets :=
  bytes.map ofByte

def toBytes (text : Octets) : List UInt8 :=
  text.map toByte

/-- The bytes of a text. -/
def ofText (text : String) : Octets :=
  ofBytes (Utf8.encode text.toList)

theorem toByte_ofByte (b : UInt8) : toByte (ofByte b) = b := by
  have hv : b.toNat.isValidChar := Or.inl (by have := b.toNat_lt; omega)
  have code : (Char.ofNat b.toNat).toNat = b.toNat := by
    rw [Char.ofNat, dif_pos hv]
    rfl
  rw [toByte, ofByte, code, UInt8.ofNat_toNat]

/-- No byte is lost on the way in. -/
theorem toBytes_ofBytes (bytes : List UInt8) : toBytes (ofBytes bytes) = bytes := by
  simp [toBytes, ofBytes, Function.comp_def, toByte_ofByte]

/-- Splits a text at a character; `word` is the part begun, latest character
first. -/
def splitAt (separator : Char) : Octets → Octets → List Octets
  | word, [] => [word.reverse]
  | word, c :: rest =>
    if c = separator then word.reverse :: splitAt separator [] rest
    else splitAt separator (c :: word) rest

/-- The parts of a text between the occurrences of a character. -/
def split (separator : Char) (text : Octets) : List Octets :=
  splitAt separator [] text

/-- A number in decimal digits. -/
def ofNat (n : Nat) : Octets :=
  Nat.toDigits 10 n

/-- A number in decimal digits, with its sign. -/
def ofInt (n : Int) : Octets :=
  (if n < 0 then ['-'] else []) ++ ofNat n.natAbs

/-- Texts in a row with a separator between them. -/
def join (separator : Octets) (parts : List Octets) : Octets :=
  separator.intercalate parts

end Octets

end SamScript.Machine
