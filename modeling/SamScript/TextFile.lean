/-
Text files, as the programs and the settings of a run are. They hold UTF-8,
and whatever ends their lines counts as a line feed.
-/
import SamScript.Host
import SamScript.Path
import SamScript.Text.Lines
import SamScript.Text.Utf8

namespace SamScript

/-- Why a text cannot be had from a file. -/
inductive TextFault where
  | file (fault : FileFault)
  /-- The bytes are not UTF-8. -/
  | notText (flaw : Utf8.Broken)
  deriving DecidableEq, Repr

/-- A fault in words. -/
def TextFault.message : TextFault → String
  | .file fault => fault.message
  | .notText flaw => flaw.message

namespace FileFault

/-- Whether a fault says that there is nothing under the path. -/
def isAbsence : FileFault → Bool
  | .refused .notFound _ | .refused .notDirectory _ | .refused .tooManyLinks _ | .nullByte => true
  | .refused _ _ => false

end FileFault

/-- The text of a file, if there is a file, its bytes read by `decode`. -/
def Host.readText? (host : Host) (decode : List UInt8 → Except Utf8.Broken (List Char))
    (path : Path) : Except TextFault (Option (List Char)) :=
  match host.readFile path.text with
  | .error fault => if fault.isAbsence then .ok none else .error (.file fault)
  | .ok bytes =>
    match decode bytes with
    | .error flaw => .error (.notText flaw)
    | .ok text => .ok (some (Lines.normalize text))

end SamScript
