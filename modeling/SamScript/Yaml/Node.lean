/-
The nodes of a YAML document, read from its tokens. Every node has its full
tag: what is written without one gets it here, a plain scalar by its text. An
alias is the node of its anchor.
-/
import SamScript.Yaml.Lexer
import SamScript.Yaml.Plain

namespace SamScript.Yaml

/-- A node. -/
inductive Node where
  | scalar (tag : Tag) (text : String)
  | sequence (tag : Tag) (items : List Node)
  | mapping (tag : Tag) (entries : List (Node × Node))
  deriving Inhabited

namespace Node

/-- The tokens that are left, and what names stand for in the document. -/
structure Reader where
  tokens : List Token
  /-- The beginnings that tag handles stand for. -/
  handles : List (String × String) := [("!", "!"), ("!!", Tag.standard)]
  anchors : List (String × Node) := []
  /-- The anchors that were set, also on nodes that are not complete. -/
  anchored : List String := []

/-- A step that fails if the document is malformed. -/
abbrev Read := StateT Reader Option

/-- The next token. -/
def peek : Read (Option Token) := do
  return (← get).tokens.head?

/-- Leaves the next token behind. -/
def skip : Read Unit :=
  modify fun r => { r with tokens := r.tokens.drop 1 }

/-- Takes a token if it is the next one. -/
def take (t : Token) : Read Bool := do
  if (← peek) = some t then
    skip
    return true
  else return false

/-- Takes a token that has to be the next one. -/
def require (t : Token) : Read Unit := do
  if !(← take t) then failure

/-- Whether the next token is one of some. -/
def isNext (ts : List Token) : Read Bool := do
  return (← peek).any ts.contains

/-- The node where there is none. -/
def empty : Node :=
  .scalar .null ""

/-- The tag that a written one is. -/
def fullTag (t : TagText) : Read String := do
  match t.handle with
  | none => return t.suffix
  | some handle =>
    match (← get).handles.lookup handle with
    | some start => return start ++ t.suffix
    | none => failure

/-- The anchor and the tag in front of a node, in either order. -/
def properties : Nat → Option String → Option String → Read (Option String × Option String)
  | 0, anchor, tag => return (anchor, tag)
  | n + 1, anchor, tag => do
    match anchor, tag, ← peek with
    | none, _, some (.anchor name) => do
      skip
      properties n (some name) tag
    | _, none, some (.tag t) => do
      skip
      properties n anchor (some (← fullTag t))
    | _, _, _ => return (anchor, tag)

/-- Whether a tag leaves the choice to the node. -/
def isOpen (tag : Option String) : Bool :=
  tag.isNone || tag = some "!"

/-- The node of a scalar. -/
def ofScalar (tag : Option String) (plain : Bool) (text : String) : Node :=
  let tag : Tag := match tag with
    | none => if plain then Tag.ofPlain text.toList else .text
    | some "!" => Tag.ofPlain text.toList
    | some t => .ofText t
  .scalar tag text

/-- The tag of a collection. -/
def collectionTag (standard : Tag) (tag : Option String) : Tag :=
  match tag with
  | some t => if t = "!" then standard else .ofText t
  | none => standard

mutual

/-- A node. Blocks are allowed where `block` says so, and entries without
indentation of their own where `indentless` does. -/
def node : Nat → Bool → Bool → Read Node
  | 0, _, _ => failure
  | n + 1, block, indentless => do
    match ← peek with
    | some (.alias name) => do
      skip
      match (← get).anchors.lookup name with
      | some found => return found
      | none => failure
    | _ => do
      let (anchor, tag) ← properties 2 none none
      if let some name := anchor then
        if (← get).anchored.contains name then failure
        modify fun r => { r with anchored := name :: r.anchored }
      let found ← content n block indentless (anchor.isSome || tag.isSome) tag
      if let some name := anchor then
        modify fun r => { r with anchors := (name, found) :: r.anchors }
      return found

/-- A node behind its anchor and tag. -/
def content : Nat → Bool → Bool → Bool → Option String → Read Node
  | 0, _, _, _, _ => failure
  | n + 1, block, indentless, mayBeEmpty, tag => do
    let sequence (x : Read (List Node)) : Read Node := do
      return .sequence (collectionTag .sequence tag) (← x)
    let mapping (x : Read (List (Node × Node))) : Read Node := do
      return .mapping (collectionTag .mapping tag) (← x)
    match ← peek with
    | some .blockEntry => if indentless then sequence (indentlessItems n) else nothing tag mayBeEmpty
    | some (.scalar text plain) => do
      skip
      return ofScalar tag plain text
    | some .flowSequenceStart => do
      skip
      sequence (flowItems n true)
    | some .flowMappingStart => do
      skip
      mapping (flowEntries n true)
    | some .blockSequenceStart =>
      if block then do
        skip
        sequence (blockItems n)
      else nothing tag mayBeEmpty
    | some .blockMappingStart =>
      if block then do
        skip
        mapping (blockEntries n)
      else nothing tag mayBeEmpty
    | _ => nothing tag mayBeEmpty

/-- A node without content, which only an anchor or a tag can be. -/
def nothing (tag : Option String) (mayBeEmpty : Bool) : Read Node :=
  if mayBeEmpty then return ofScalar tag (isOpen tag) "" else failure

/-- A node, or the empty one if one of some tokens comes next. -/
def nodeUnless : Nat → List Token → Bool → Bool → Read Node
  | 0, _, _, _ => failure
  | n + 1, ends, block, indentless => do
    if ← isNext ends then return empty else node n block indentless

/-- The entries of a block sequence. -/
def blockItems : Nat → Read (List Node)
  | 0 => failure
  | n + 1 => do
    if ← take .blockEntry then
      let item ← nodeUnless n [.blockEntry, .blockEnd] true false
      return item :: (← blockItems n)
    else
      require .blockEnd
      return []

/-- The entries of a sequence that is indented no further than its key. -/
def indentlessItems : Nat → Read (List Node)
  | 0 => failure
  | n + 1 => do
    if ← take .blockEntry then
      let item ← nodeUnless n [.blockEntry, .key, .value, .blockEnd] true false
      return item :: (← indentlessItems n)
    else return []

/-- The entries of a block mapping. Only the value may be left out. -/
def blockEntries : Nat → Read (List (Node × Node))
  | 0 => failure
  | n + 1 => do
    let ends : List Token := [.key, .value, .blockEnd]
    if ← take .key then
      let key ← nodeUnless n ends true true
      let value ← if ← take .value then nodeUnless n ends true true else pure empty
      return (key, value) :: (← blockEntries n)
    else
      require .blockEnd
      return []

/-- The items of a flow sequence. A key makes a mapping of one entry. -/
def flowItems : Nat → Bool → Read (List Node)
  | 0, _ => failure
  | n + 1, first => do
    if ← take .flowSequenceEnd then return []
    if !first then require .flowEntry
    if ← take .flowSequenceEnd then return []
    if ← take .key then
      let key ← nodeUnless n [.value, .flowEntry, .flowSequenceEnd] false false
      let value ← if ← take .value then nodeUnless n [.flowEntry, .flowSequenceEnd] false false
        else pure empty
      return .mapping .mapping [(key, value)] :: (← flowItems n false)
    else
      let item ← node n false false
      return item :: (← flowItems n false)

/-- The entries of a flow mapping. -/
def flowEntries : Nat → Bool → Read (List (Node × Node))
  | 0, _ => failure
  | n + 1, first => do
    if ← take .flowMappingEnd then return []
    if !first then require .flowEntry
    if ← take .flowMappingEnd then return []
    if ← take .key then
      let key ← nodeUnless n [.value, .flowEntry, .flowMappingEnd] false false
      let value ← if ← take .value then nodeUnless n [.flowEntry, .flowMappingEnd] false false
        else pure empty
      return (key, value) :: (← flowEntries n false)
    else
      let key ← node n false false
      return (key, empty) :: (← flowEntries n false)

end

-- ============================================================ documents

/-- The directives of a document. -/
def directives : Nat → Bool → List String → Read Unit
  | 0, _, _ => return
  | n + 1, versioned, handles => do
    match ← peek with
    | some (.version major) => do
      if versioned || major ≠ 1 then failure
      skip
      directives n true handles
    | some (.tagHandle handle start) => do
      if handles.contains handle then failure
      skip
      modify fun r => { r with handles := (handle, start) :: r.handles }
      directives n versioned (handle :: handles)
    | some .directive => do
      skip
      directives n versioned handles
    | _ => return

/-- Leaves marks at the end of a document behind. -/
def skipEnds : Read Unit :=
  modify fun r => { r with tokens := r.tokens.dropWhile (· = Token.documentEnd) }

/-- Whether a document begins with directives or a mark. -/
def isExplicit : Option Token → Bool
  | some .documentStart | some (.version _) | some (.tagHandle _ _) | some .directive => true
  | _ => false

/-- The only document of a text; nothing if there is none. A second one is
an error. -/
def single : Read (Option Node) := do
  let size := 4 * (← get).tokens.length + 8
  let start ← peek
  if start.isNone then return none
  let found ←
    if isExplicit start then do
      directives size false []
      require .documentStart
      let next ← peek
      if next.isNone || next = some .documentEnd || isExplicit next then pure empty
      else node size true false
    else node size true false
  skipEnds
  if (← peek).isNone then return some found else failure

/-- The only document of a text that is well formed. -/
def ofText? (text : List Char) : Option (Option Node) := do
  let tokens ← tokens? text
  let (found, _) ← single.run { tokens }
  return found

end Node

end SamScript.Yaml
