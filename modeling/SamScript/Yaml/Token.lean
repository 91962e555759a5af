/-
The tokens of a YAML text. Indentation has become tokens of its own: where a
block of entries begins and where it ends.
-/
namespace SamScript.Yaml

/-- A tag as it is written: a handle that stands for a beginning, if there is
one, and the rest. -/
structure TagText where
  handle : Option String
  suffix : String
  deriving DecidableEq, Repr

/-- A token. -/
inductive Token where
  | version (major : Nat)
  | tagHandle (handle start : String)
  /-- A directive that means nothing here. -/
  | directive
  | documentStart
  | documentEnd
  | blockSequenceStart
  | blockMappingStart
  | blockEnd
  | flowSequenceStart
  | flowSequenceEnd
  | flowMappingStart
  | flowMappingEnd
  | blockEntry
  | flowEntry
  | key
  | value
  | alias (name : String)
  | anchor (name : String)
  | tag (t : TagText)
  | scalar (text : String) (plain : Bool)
  deriving DecidableEq, Repr

end SamScript.Yaml
