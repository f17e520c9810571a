import LayeredConfig.Config.Basic
import LayeredConfig.Yaml.Data

/-!
# Loading documents

A YAML text becomes a configuration whose root is an object or an array.  An
empty document is an empty object.  References stay in it until they are
resolved.
-/

namespace LayeredConfig.Yaml

/-- The root that a value is; nothing at all is an empty object. -/
def rootOf : Option Value → Except LoadFault Value
  | none => .ok (.object [])
  | some (.object members) => .ok (.object members)
  | some (.array elements) => .ok (.array elements)
  | some v => .error (.badRoot v.kind)

def loadedEvent (root : Value) : Event :=
  match root with
  | .object members => .documentLoaded .object members.length
  | .array elements => .documentLoaded .array elements.length
  | v => .documentLoaded v.kind 0

/-- Loads a document from a source.  Documents that are to be compared have
numbers of their own, which tell their NaNs apart. -/
def loadSource (source : Source) (document : Nat := 0) : Except LoadFault Config := do
  return ⟨← rootOf (← valueOfSource source document)⟩

def load (text : String) (document : Nat := 0) : Except LoadFault Config :=
  loadSource (.ofText text.toList) document

/-- Loads a document from a text that is read as a stream. -/
def loadStream (text : String) (document : Nat := 0) : Except LoadFault Config :=
  loadSource (.ofStreamText text.toList) document

/-- Loads a document from the bytes of a file, which are UTF-8. -/
def loadBytes (bytes : List UInt8) (document : Nat := 0) : Except LoadFault Config :=
  loadSource (.ofBytes bytes) document

end LayeredConfig.Yaml
