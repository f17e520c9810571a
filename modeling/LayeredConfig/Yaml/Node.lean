import LayeredConfig.Members
import LayeredConfig.Yaml.Fault
import LayeredConfig.Yaml.Token

/-!
# Node graphs

The tokens of a document form a graph of nodes: scalars, sequences and
mappings, each with a tag.  An alias is a second way to a node, so nodes are
kept in an array and named by their place in it.
-/

namespace LayeredConfig.Yaml

/-- Place of a node in its graph. -/
abbrev NodeId := Nat

inductive Node where
  | scalar (tag text : String)
  | sequence (tag : String) (items : List NodeId)
  | mapping (tag : String) (pairs : List (NodeId × NodeId))

namespace Node

def tag : Node → String
  | .scalar tag _ | .sequence tag _ | .mapping tag _ => tag

def withTag (newTag : String) : Node → Node
  | .scalar _ text => .scalar newTag text
  | .sequence _ items => .sequence newTag items
  | .mapping _ pairs => .mapping newTag pairs

def kindText : Node → String
  | .scalar .. => "scalar"
  | .sequence .. => "sequence"
  | .mapping .. => "mapping"

end Node

/-- The nodes of a document. -/
abbrev Graph := Array Node

def Node.pairCount : Node → Nat
  | .mapping _ pairs => pairs.length
  | _ => 0

def Graph.pairCount (g : Graph) : Nat := g.foldl (fun n node ↦ n + node.pairCount) 0

end LayeredConfig.Yaml
