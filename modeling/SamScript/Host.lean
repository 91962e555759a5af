/-
What a run may ask of the machine it runs on: the bytes of a file, and the
result of running a program. A host is given by its answers. The answer to a
start may depend on everything that was started before, since programs leave
traces; that history is all it depends on, so a run on a host is a function.
-/
import SamScript.Json.Basic
import SamScript.Text.Quoted

namespace SamScript

-- =============================================================== refusals

/-- Why a machine refuses a request about a file. -/
inductive Errno where
  | notFound
  | argumentsTooLong
  | execFormat
  | accessDenied
  | notDirectory
  | isDirectory
  | nameTooLong
  | tooManyLinks
  deriving DecidableEq, Repr

namespace Errno

def number : Errno → Nat
  | .notFound => 2
  | .argumentsTooLong => 7
  | .execFormat => 8
  | .accessDenied => 13
  | .notDirectory => 20
  | .isDirectory => 21
  | .nameTooLong => 36
  | .tooManyLinks => 40

def text : Errno → String
  | .notFound => "No such file or directory"
  | .argumentsTooLong => "Argument list too long"
  | .execFormat => "Exec format error"
  | .accessDenied => "Permission denied"
  | .notDirectory => "Not a directory"
  | .isDirectory => "Is a directory"
  | .nameTooLong => "File name too long"
  | .tooManyLinks => "Too many levels of symbolic links"

end Errno

/-- Why a file cannot be had. -/
inductive FileFault where
  /-- The machine refuses the path. -/
  | refused (errno : Errno) (path : String)
  /-- The path holds a NUL, which no path can. -/
  | nullByte
  deriving DecidableEq, Repr

/-- A refusal in words. -/
def FileFault.message : FileFault → String
  | .refused errno path => s!"[Errno {errno.number}] {errno.text}: {Text.quoted path}"
  | .nullByte => "embedded null byte"

/-- Why a program cannot be started. -/
inductive StartFault where
  | file (fault : FileFault)
  /-- A variable's name holds an equals sign. -/
  | badVariable
  deriving DecidableEq, Repr

def StartFault.message : StartFault → String
  | .file fault => fault.message
  | .badVariable => "illegal environment variable name"

-- =============================================================== requests

/-- A program to run, with its arguments and the variables it finds beside
those of the machine. -/
structure Request where
  program : String
  arguments : List String
  bindings : Bindings String := []
  deriving DecidableEq, Repr

/-- What a program left: its two outputs and its status, which is negative
if a signal ended it. -/
structure Finished where
  stdout : List UInt8
  stderr : List UInt8
  status : Int
  deriving DecidableEq, Repr

/-- A machine, by its answers. -/
structure Host where
  /-- The bytes of a file. -/
  readFile : String → Except FileFault (List UInt8)
  /-- What becomes of a program, given what was started before, the latest
  first. -/
  start : List Request → Request → Except StartFault Finished

end SamScript
