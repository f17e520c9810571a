import LayeredConfig.Float.Binary
import LayeredConfig.Members

/-!
# Values

A configuration document is a tree of values.  Scalars and containers are
final; references, concatenations and values with an alternative stand for
something that is found elsewhere in the document, and are present only
until it is resolved.
-/

namespace LayeredConfig

/-- A reference to another place of the document.  An optional reference may
lead nowhere. -/
structure Reference where
  path : String
  optional : Bool := false
  deriving DecidableEq

/-- A node of a configuration document. -/
inductive Value where
  | null
  | boolean (b : Bool)
  | string (s : Text)
  | int (n : Int)
  | single (x : Single)
  | double (x : Double)
  /-- A signed span of time. -/
  | duration (nanoseconds : Int)
  | object (members : List (Text × Value))
  | array (elements : List Value)
  | substitution (target : Reference)
  /-- Adjacent fragments that wait to be joined. -/
  | concatenation (fragments : List Value)
  /-- A default, and a reference that may override it. -/
  | alternative (default : Value) (override : Reference)

inductive Kind where
  | null | boolean | string | int | single | double | duration | object | array
  | substitution | concatenation | alternative
  deriving DecidableEq

def Kind.text : Kind → String
  | .null => "null"
  | .boolean => "boolean"
  | .string => "string"
  | .int => "int"
  | .single => "float32"
  | .double => "float64"
  | .duration => "duration"
  | .object => "object"
  | .array => "array"
  | .substitution => "substitution"
  | .concatenation => "concatenation"
  | .alternative => "value_with_alternative"

/-- Name of the kind in constructor form and in messages on types. -/
def Kind.name : Kind → String
  | .null => "Null"
  | .boolean => "Boolean"
  | .string => "String"
  | .int => "Int"
  | .single => "Float32"
  | .double => "Float64"
  | .duration => "Duration"
  | .object => "Object"
  | .array => "Array"
  | .substitution => "Substitution"
  | .concatenation => "Concatenation"
  | .alternative => "ValueWithAlternative"

/-- Kinds that stand for something found elsewhere. -/
def Kind.isReference : Kind → Bool
  | .substitution | .concatenation | .alternative => true
  | _ => false

/-- Kinds that may stand beside others in a concatenation. -/
def Kind.isConcatenable : Kind → Bool
  | .null | .boolean | .string | .int | .substitution | .concatenation => true
  | _ => false

namespace Value

def kind : Value → Kind
  | .null => .null
  | .boolean _ => .boolean
  | .string _ => .string
  | .int _ => .int
  | .single _ => .single
  | .double _ => .double
  | .duration _ => .duration
  | .object _ => .object
  | .array _ => .array
  | .substitution _ => .substitution
  | .concatenation _ => .concatenation
  | .alternative .. => .alternative

def isReference (v : Value) : Bool := v.kind.isReference

def isObject : Value → Bool
  | .object _ => true
  | _ => false

/-- Whether the value counts as true: all do but `false` and the empty
containers. -/
def isTruthy : Value → Bool
  | .boolean b => b
  | .object members => !members.isEmpty
  | .array elements => !elements.isEmpty
  | _ => true

mutual

/-- No reference is left anywhere in the tree. -/
def isResolved : Value → Bool
  | .object members => membersResolved members
  | .array elements => elementsResolved elements
  | .substitution _ | .concatenation _ | .alternative .. => false
  | _ => true

def membersResolved : List (Text × Value) → Bool
  | [] => true
  | (_, v) :: rest => v.isResolved && membersResolved rest

def elementsResolved : List Value → Bool
  | [] => true
  | v :: rest => v.isResolved && elementsResolved rest

end

mutual

/-- The invariant of trees built by this library: the keys of an object are
distinct and a concatenation has a fragment. -/
def wellFormed : Value → Bool
  | .object members => decide (Members.keys members).Nodup && membersWellFormed members
  | .array elements => elementsWellFormed elements
  | .concatenation fragments => !fragments.isEmpty && elementsWellFormed fragments
  | .alternative v _ => v.wellFormed
  | _ => true

def membersWellFormed : List (Text × Value) → Bool
  | [] => true
  | (_, v) :: rest => v.wellFormed && membersWellFormed rest

def elementsWellFormed : List Value → Bool
  | [] => true
  | v :: rest => v.wellFormed && elementsWellFormed rest

end

end Value

end LayeredConfig
