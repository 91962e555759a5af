/-
Encodings of text as bytes, by the names they go by. Reading never fails:
bytes that spell nothing become U+FFFD. Only a name that no encoding goes by
is an error, and only when there are bytes to read.
-/
import SamScript.Text.Class
import SamScript.Text.Utf8

namespace SamScript

/-- The known encodings. -/
inductive Encoding where
  | utf8
  /-- UTF-8 after an optional byte order mark. -/
  | utf8Marked
  | latin1
  | ascii
  | windows1252
  /-- UTF-16 in the byte order that a mark tells, low bytes first without one. -/
  | utf16
  | utf16Low
  | utf16High
  deriving DecidableEq, Repr

namespace Encoding

-- ================================================================ names

/-- Splits a name into its runs of ASCII letters, digits and full stops, in
lower case; `word` is the run begun, latest character first. -/
def nameParts : List Char → List Char → List (List Char)
  | word, [] => if word.isEmpty then [] else [word.reverse]
  | word, c :: rest =>
    if (c.toNat < 0x80 && c.isAlphanum) || c = '.' then nameParts (c.toLower :: word) rest
    else if word.isEmpty then nameParts [] rest
    else word.reverse :: nameParts [] rest

/-- A name in the form in which names are compared. -/
def normalName (name : String) : String :=
  "_".intercalate ((nameParts [] name.toList).map String.ofList)

/-- What the encodings are called. -/
def names : Encoding → List String
  | .utf8 => ["utf_8", "u8", "utf", "utf8", "utf8_ucs2", "utf8_ucs4", "cp65001"]
  | .utf8Marked => ["utf_8_sig"]
  | .latin1 => ["latin_1", "8859", "cp819", "csisolatin1", "ibm819", "iso8859", "iso8859_1",
      "iso_8859_1", "iso_8859_1_1987", "iso_ir_100", "l1", "latin", "latin1"]
  | .ascii => ["ascii", "646", "ansi_x3.4_1968", "ansi_x3_4_1968", "ansi_x3.4_1986", "cp367",
      "csascii", "ibm367", "iso646_us", "iso_646.irv_1991", "iso_ir_6", "us", "us_ascii"]
  | .windows1252 => ["cp1252", "1252", "windows_1252"]
  | .utf16 => ["utf_16", "u16", "utf16"]
  | .utf16Low => ["utf_16_le", "unicodelittleunmarked", "utf_16le"]
  | .utf16High => ["utf_16_be", "unicodebigunmarked", "utf_16be"]

/-- All encodings. -/
def all : List Encoding :=
  [.utf8, .utf8Marked, .latin1, .ascii, .windows1252, .utf16, .utf16Low, .utf16High]

/-- The encoding that goes by a name. -/
def ofName? (name : String) : Option Encoding :=
  all.find? fun e => e.names.contains (normalName name)

-- ================================================================ bytes

/-- The characters of the bytes from 0x80 to 0x9F in the Windows code page;
the five gaps spell nothing. -/
def windowsHigh : List Nat :=
  [0x20AC, 0xFFFD, 0x201A, 0x0192, 0x201E, 0x2026, 0x2020, 0x2021, 0x02C6, 0x2030, 0x0160,
    0x2039, 0x0152, 0xFFFD, 0x017D, 0xFFFD, 0xFFFD, 0x2018, 0x2019, 0x201C, 0x201D, 0x2022,
    0x2013, 0x2014, 0x02DC, 0x2122, 0x0161, 0x203A, 0x0153, 0xFFFD, 0x017E, 0x0178]

/-- Reads 16-bit units. A half of a pair on its own becomes U+FFFD, and so
does what is cut off at the end. -/
def decodeUnits (lowFirst : Bool) : List UInt8 → List Char
  | a :: b :: rest =>
    let unit (a b : UInt8) : Nat :=
      if lowFirst then b.toNat * 256 + a.toNat else a.toNat * 256 + b.toNat
    let u := unit a b
    if 0xD800 ≤ u ∧ u < 0xDC00 then
      match rest with
      | c :: d :: rest' =>
        let v := unit c d
        if 0xDC00 ≤ v ∧ v < 0xE000 then
          Char.ofNat (0x10000 + (u - 0xD800) * 0x400 + (v - 0xDC00)) :: decodeUnits lowFirst rest'
        else '\uFFFD' :: decodeUnits lowFirst (c :: d :: rest')
      | _ => ['\uFFFD']
    else if 0xDC00 ≤ u ∧ u < 0xE000 then '\uFFFD' :: decodeUnits lowFirst rest
    else Char.ofNat u :: decodeUnits lowFirst rest
  | [_] => ['\uFFFD']
  | [] => []

/-- Reads bytes in an encoding. -/
def decode (e : Encoding) (bytes : List UInt8) : List Char :=
  match e with
  | .utf8 => Utf8.decodeLossy bytes
  | .utf8Marked =>
    match bytes with
    | 0xEF :: 0xBB :: 0xBF :: rest => Utf8.decodeLossy rest
    | _ => Utf8.decodeLossy bytes
  | .latin1 => bytes.map fun b => Char.ofNat b.toNat
  | .ascii => bytes.map fun b => if b < 0x80 then Char.ofNat b.toNat else '\uFFFD'
  | .windows1252 => bytes.map fun b =>
      if 0x80 ≤ b ∧ b < 0xA0 then Char.ofNat (windowsHigh.getD (b.toNat - 0x80) 0xFFFD)
      else Char.ofNat b.toNat
  | .utf16 =>
    match bytes with
    | 0xFF :: 0xFE :: rest => decodeUnits true rest
    | 0xFE :: 0xFF :: rest => decodeUnits false rest
    | _ => decodeUnits true bytes
  | .utf16Low => decodeUnits true bytes
  | .utf16High => decodeUnits false bytes

/-- Reads bytes in the encoding of a name. Without bytes the name does not
matter. -/
def decodeAs? (name : String) (bytes : List UInt8) : Option String :=
  if bytes.isEmpty then some ""
  else (ofName? name).map fun e => String.ofList (e.decode bytes)

end Encoding

end SamScript
