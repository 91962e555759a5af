/-
The program. Files are read where they are; what a Sam program starts runs on
a machine held in memory, which has the usual tools and nothing else.
-/
import SamScript.CommandLine.Files
import SamScript.Machine.Basic

namespace SamScript

/-- What came of reading some files. -/
abbrev Snapshot := List (String × Except FileFault (List UInt8))

/-- Reads a file as it is now. -/
def snapshot (path : String) : IO (String × Except FileFault (List UInt8)) := do
  if path.contains '\x00' then return (path, .error .nullByte)
  try
    let bytes ← IO.FS.readBinFile path
    return (path, .ok bytes.toList)
  catch e =>
    let errno : Errno := match e with
      | .inappropriateType .. => .isDirectory
      | .permissionDenied .. => .accessDenied
      | _ => .notFound
    return (path, .error (.refused errno path))

/-- A host with the files of a snapshot and the tools of a machine. -/
def hostOf (files : Snapshot) : Host :=
  { readFile := fun path => (files.lookup path).getD (.error (.refused .notFound path))
    start := Machine.standard.host.start }

/-- Carries out a command on the files that it names. -/
def carryOut (command : Command) : IO UInt32 := do
  let own ← command.ownFiles.mapM snapshot
  let manifests ← (command.manifests .ordinary (hostOf own)).mapM snapshot
  match command.perform .ordinary (hostOf (own ++ manifests)) with
  | .ok outcome =>
    IO.print outcome.output
    IO.eprint outcome.errors
    return UInt32.ofNat outcome.status
  | .error breakdown =>
    IO.eprintln breakdown.message
    return 1

end SamScript

/-- Carries out the command of a command line. -/
def main (arguments : List String) : IO UInt32 := do
  match SamScript.Command.ofArguments arguments with
  | .ok command => SamScript.carryOut command
  | .error .help =>
    IO.print SamScript.CommandLine.usage
    return 0
  | .error .usage =>
    IO.eprint SamScript.CommandLine.usage
    return 2
