/-
The files of the machine: a tree that holds bytes, and a few programs that
the machine knows by heart. A path is followed step by step, and every step
is taken from a directory; which of the refusals applies is decided by the
first step that cannot be taken.
-/
import SamScript.Host
import SamScript.Machine.Octets

namespace SamScript.Machine

-- ================================================================= items

/-- The programs that the machine knows by heart. -/
inductive Tool where
  | shell
  | echo
  | printf
  | cat
  | succeed
  | fail
  deriving DecidableEq, Repr

/-- What a place in the tree holds. -/
inductive Item where
  | directory
  | file (bytes : Octets) (executable : Bool)
  | tool (t : Tool)
  /-- Holds nothing and swallows what is written to it. -/
  | null
  deriving DecidableEq, Repr

/-- The way to a place: the steps from the root. -/
abbrev Route := List Octets

/-- The tree, by its places. The root is always a directory. -/
structure Files where
  items : List (Route × Item) := []
  deriving Repr

namespace Files

/-- What a place holds. -/
def item? (files : Files) (place : Route) : Option Item :=
  if place.isEmpty then some .directory else files.items.lookup place

/-- Puts an item at a place. -/
def put (files : Files) (place : Route) (item : Item) : Files :=
  { items := (place, item) :: files.items.filter fun p => p.1 ≠ place }

/-- The names in a directory. -/
def names (files : Files) (place : Route) : List Octets :=
  files.items.filterMap fun (p, _) =>
    match p.getLast? with
    | some name => if p.dropLast = place then some name else none
    | none => none

-- ============================================================== lookups

/-- The longest name that a directory can hold. -/
def longestName : Nat := 255

/-- The length from which a path is too long to be followed. -/
def longestPath : Nat := 4096

/-- Takes one step from a place. -/
def step (files : Files) (here : Route) (name : Octets) : Except Errno Route :=
  if files.item? here ≠ some .directory then .error .notDirectory
  else if name = [] ∨ name = ['.'] then .ok here
  else if name = ['.', '.'] then .ok here.dropLast
  else if name.length > longestName then .error .nameTooLong
  else if (files.item? (here ++ [name])).isNone then .error .notFound
  else .ok (here ++ [name])

/-- Takes steps one after the other. -/
def walk (files : Files) (here : Route) (names : List Octets) : Except Errno Route :=
  names.foldlM files.step here

/-- Where the steps of a path begin. -/
def origin (working : Route) (path : Octets) : Route :=
  if path.head? = some '/' then [] else working

/-- The place of a path, seen from a working directory. -/
def locate (files : Files) (working : Route) (path : Octets) : Except Errno Route :=
  if path.isEmpty then .error .notFound
  else if path.length ≥ longestPath then .error .nameTooLong
  else files.walk (origin working path) (Octets.split '/' path)

/-- The item of a path. -/
def find (files : Files) (working : Route) (path : Octets) : Except Errno (Route × Item) := do
  let place ← files.locate working path
  match files.item? place with
  | some item => return (place, item)
  | none => throw .notFound

/-- The bytes of a path. -/
def read (files : Files) (working : Route) (path : Octets) : Except Errno Octets := do
  match (← files.find working path).2 with
  | .directory => throw .isDirectory
  | .file bytes _ => return bytes
  | .tool _ | .null => return []

/-- The place where a path can be written: it holds something, or its
directory is there. -/
def target (files : Files) (working : Route) (path : Octets) : Except Errno Route :=
  match files.locate working path with
  | .error .notFound => do
    let names := Octets.split '/' path
    let parent ← files.walk (origin working path) names.dropLast
    let name := names.getLastD []
    if path.isEmpty then throw .notFound
    else if name.isEmpty then throw .isDirectory
    else if files.item? parent = some .directory then return parent ++ [name]
    else throw .notDirectory
  | r => r

/-- Makes a directory and those above it, unless they are there. -/
def makeDirectory (files : Files) (place : Route) : Files :=
  (List.range (place.length + 1)).foldl
    (fun files n =>
      let above := place.take n
      if (files.item? above).isSome then files else files.put above .directory)
    files

/-- Puts a file at a place, and makes the directories above it. -/
def putFile (files : Files) (place : Route) (bytes : Octets) (executable : Bool) : Files :=
  (files.makeDirectory place.dropLast).put place (.file bytes executable)

/-- Adds bytes to what a place holds. -/
def append (files : Files) (place : Route) (bytes : Octets) : Files :=
  match files.item? place with
  | some (.file old executable) => files.put place (.file (old ++ bytes) executable)
  | some _ => files
  | none => files.put place (.file bytes false)

end Files

end SamScript.Machine
