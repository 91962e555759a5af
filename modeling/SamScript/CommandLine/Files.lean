/-
The files that a command reads: the program, the settings, and the manifests
that the program's interface declarations name.
-/
import SamScript.CommandLine.Outcome

namespace SamScript

/-- The manifests that a program names, where its settings look for them. -/
def Surroundings.manifests (surroundings : Surroundings) (tree : Tree) : List String :=
  let env := surroundings.env tree.root tree.source
  let pathOf (n : Node) : Option String := do
    match Eval.stringText env (← n.child? .path) {} with
    | (.ok path, _) => some (surroundings.config.resolveManifest path).text
    | _ => none
  match tree.root.named with
  | first :: _ => if first.kind = .interfaces then first.named.filterMap pathOf else []
  | [] => []

namespace Command

/-- The files that a command names itself. -/
def ownFiles : Command → List String
  | .run file config _ => (file :: config.toList).map fun path => (Path.ofText path).text
  | .check file _ | .tree file => [(Path.ofText file).text]

/-- The manifests that a command reads, on a host that has its own files. -/
def manifests (bounds : Bounds) (host : Host) : Command → List String
  | .run file config _ =>
    match host.readText? Utf8.decode? (Path.ofText file), settings host config with
    | .ok (some text), .ok config =>
      match Tree.ofSource bounds (some file) (String.ofList text) with
      | .ok parsed =>
        let surroundings : Surroundings := { host, config, bounds, file := some file }
        surroundings.manifests parsed
      | .error _ => []
    | _, _ => []
  | .check _ _ | .tree _ => []

end Command

end SamScript
