/-!
# Tokens

The pieces that a document is written with.
-/

namespace LayeredConfig.Yaml

/-- A tag as written: the handle, if it has one, and what follows it. -/
structure TagMark where
  handle : Option String
  suffix : String

inductive Directive where
  | version (major minor : Nat)
  | tag (handle pre : String)
  | other

inductive Token where
  | directive (d : Directive)
  | documentStart
  | documentEnd
  | blockSequenceStart
  | blockMappingStart
  | blockEnd
  | flowSequenceStart
  | flowSequenceEnd
  | flowMappingStart
  | flowMappingEnd
  | key
  | value
  | blockEntry
  | flowEntry
  | alias (name : String)
  | anchor (name : String)
  | tag (mark : TagMark)
  /-- Plain scalars are those without quotes or block indicator. -/
  | scalar (text : String) (plain : Bool)

end LayeredConfig.Yaml
