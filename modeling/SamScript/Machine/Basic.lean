/-
A machine that is held in memory: files, a working directory, variables, and
the programs that are found among the files. What its programs change stays
for those that come after, so the machine is a host whose answers depend on
what was started before.
-/
import SamScript.Machine.Shell.Execution

namespace SamScript

/-- A machine. -/
structure Machine where
  files : Machine.Files
  /-- Where relative paths begin. -/
  working : Machine.Route
  /-- The variables that programs find. -/
  bindings : List (Machine.Octets × Machine.Octets) := []

namespace Machine

-- ================================================================ setting up

/-- The route of a path from the root. -/
def route (path : String) : Route :=
  (Octets.split '/' (Octets.ofText path)).filter fun name => !name.isEmpty

/-- The directories that programs are looked for in. -/
def programDirectories : List String :=
  ["/usr/local/bin", "/usr/bin", "/bin"]

/-- The names of the programs. -/
def tools : List (String × Tool) :=
  [("sh", .shell), ("dash", .shell), ("echo", .echo), ("printf", .printf), ("cat", .cat),
    ("true", .succeed), ("false", .fail)]

/-- The files of a new machine: the usual directories with the programs. -/
def standardFiles : Files :=
  let directories := ["/tmp/work", "/root", "/home", "/etc", "/var", "/dev", "/opt", "/usr/local/bin",
    "/usr/bin", "/bin"]
  let empty : Files := {}
  let files := directories.foldl (fun files d => files.makeDirectory (route d)) empty
  let files := files.put (route "/dev/null") .null
  ["/usr/bin", "/bin"].foldl
    (fun files d => tools.foldl
      (fun files (name, tool) => files.put (route (d ++ "/" ++ name)) (.tool tool)) files) files

/-- A new machine, in an empty directory. -/
def standard : Machine :=
  { files := standardFiles
    working := route "/tmp/work"
    bindings := [("PATH".toList, Octets.join [':'] (programDirectories.map Octets.ofText)),
      ("HOME".toList, "/root".toList)] }

/-- Puts a file where a path of its own leads, with the directories on the
way. -/
def addFile (m : Machine) (path : String) (bytes : List UInt8) (executable : Bool) : Machine :=
  let place := (if path.startsWith "/" then [] else m.working) ++ route path
  { m with files := m.files.putFile place (Octets.ofBytes bytes) executable }

-- =================================================================== files

/-- The bytes of a file. -/
def readFile (m : Machine) (path : String) : Except FileFault (List UInt8) :=
  if path.contains '\x00' then .error .nullByte
  else
    match m.files.read m.working (Octets.ofText path) with
    | .ok bytes => .ok bytes.toBytes
    | .error e => .error (.refused e path)

/-- Whether something is to be found under a path. Some refusals do not
answer the question. -/
def exists? (m : Machine) (path : String) : Except FileFault Bool :=
  if path.contains '\x00' then .ok false
  else
    match m.files.find m.working (Octets.ofText path) with
    | .ok _ => .ok true
    | .error .notFound | .error .notDirectory | .error .tooManyLinks => .ok false
    | .error e => .error (.refused e path)

-- ================================================================ programs

/-- The longest word that a program can be started with. -/
def longestWord : Nat := 131071

/-- The variables that a program finds: those of the machine, and over them
those of the request. -/
def environment (m : Machine) (request : Request) : List (Octets × Octets) :=
  request.bindings.foldl
    (fun env (x, v) =>
      let x := Octets.ofText x
      let v := Octets.ofText v
      if (env.lookup x).isSome then env.map fun p => if p.1 = x then (x, v) else p
      else env ++ [(x, v)])
    m.bindings

/-- The paths under which a program may be found: its own, or one in each of
the directories that are searched. -/
def candidates (environment : List (Octets × Octets)) (program : Octets) : List Octets :=
  if program.contains '/' then [program]
  else
    let path := (environment.lookup "PATH".toList).getD "/bin:/usr/bin".toList
    (Octets.split ':' path).map fun d =>
      if d.isEmpty then program
      else if d.getLast? = some '/' then d ++ program
      else d ++ ['/'] ++ program

/-- The first candidate that can be started. If there is none, the refusal is
the first one that is more than a missing file, or else the last. -/
def firstStart (m : Machine) (files : Files) (words : List Octets) :
    Option Errno → Errno → List Octets → Except Errno Shell.Start
  | grave, last, [] => .error (grave.getD last)
  | grave, _, path :: rest =>
    match Shell.resolve files m.working Shell.longestChain path words with
    | .ok start => .ok start
    | .error refusal =>
      let e := match refusal with
        | .errno e => e
        | .plain _ => .execFormat
      let grave := if grave.isSome || e = .notFound || e = .notDirectory then grave else some e
      firstStart m files words grave e rest

/-- Why a request cannot even be tried. -/
def objection? (request : Request) : Option StartFault :=
  let words := request.program :: request.arguments
  if request.bindings.any fun (x, _) => x.contains '=' then some .badVariable
  else if words.any (·.contains '\x00')
      || request.bindings.any fun (x, v) => x.contains '\x00' || v.contains '\x00' then
    some (.file .nullByte)
  else if words.any fun w => w.utf8ByteSize > longestWord then
    some (.file (.refused .argumentsTooLong request.program))
  else none

/-- Runs a program on some files, and gives the files as it leaves them. -/
def perform (m : Machine) (files : Files) (request : Request) :
    Except StartFault (Finished × Files) :=
  match objection? request with
  | some fault => .error fault
  | none =>
    let environment := m.environment request
    let program := Octets.ofText request.program
    let words := program :: request.arguments.map Octets.ofText
    match m.firstStart files words none .notFound (candidates environment program) with
    | .error e => .error (.file (.refused e request.program))
    | .ok start =>
      let state : Shell.State :=
        { files
          sinks := #[[], []]
          sources := #[[]]
          working := m.working
          name := program
          channels := [(0, .source 0), (1, .sink 0), (2, .sink 1)] }
      let (_, after) := (Shell.program Shell.patience environment start).run state
      let status : Int := match after.signal with
        | some signal => -signal
        | none => after.status
      .ok ({ stdout := (after.written 0).toBytes, stderr := (after.written 1).toBytes, status },
        after.files)

/-- The files after some requests, the latest of which comes first. -/
def filesAfter (m : Machine) : List Request → Files
  | [] => m.files
  | request :: past =>
    let files := filesAfter m past
    match m.perform files request with
    | .ok (_, files) => files
    | .error _ => files

/-- The machine as a host. -/
def host (m : Machine) : Host :=
  { readFile := m.readFile
    start := fun past request => (m.perform (m.filesAfter past) request).map Prod.fst }

end Machine

end SamScript
