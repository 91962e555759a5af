/-
The settings that a file holds.
-/
import SamScript.Config.Basic
import SamScript.TextFile
import SamScript.Yaml.Document

namespace SamScript.Config

/-- Why a file gives no settings: it cannot be read, it holds a value that
there is not, or its document gives none. -/
inductive LoadFailure where
  | unreadable (fault : TextFault)
  | value (fault : Yaml.Fault)
  | settings (failure : Failure)
  deriving DecidableEq, Repr

/-- What keeps a file from giving settings, in words. -/
def LoadFailure.message : LoadFailure → String
  | .unreadable fault => fault.message
  | .value fault => fault.message
  | .settings failure => failure.message

/-- The settings of a file. -/
def load (host : Host) (path : String) : Except LoadFailure Config :=
  let path := Path.ofText path
  let fail (fault : Fault) : Except LoadFailure Config := .error (.settings (.fault fault))
  match host.readText? Utf8.decodeArriving? path with
  | .error fault => .error (.unreadable fault)
  | .ok none => fail (.notFound path.text)
  | .ok (some text) =>
    match Yaml.read text with
    | .error .malformed => fail (.malformed path.text)
    | .error fault => .error (.value fault)
    | .ok document => (ofDocument path.text document).mapError .settings

end SamScript.Config
