import LayeredConfig.Config.Scalar
import LayeredConfig.Lookup
import LayeredConfig.Value.Text

/-!
# Faults of typed reads
-/

namespace LayeredConfig

/-- What a text is read as. -/
inductive Target where
  | int | single | double | boolean
  deriving DecidableEq

def Target.text : Target → String
  | .int => "int"
  | .single => "float32"
  | .double => "float64"
  | .boolean => "boolean"

/-- What a value has to be. -/
inductive Shape where
  | duration | object | array | integers
  deriving DecidableEq

inductive ReadFault where
  | notFound (path : String)
  | traversal (t : Traversal)
  /-- The value cannot be read as the target. -/
  | unreadable (target : Target) (path text : String)
  /-- The value is of the wrong kind, and no text is read for it. -/
  | mismatch (shape : Shape) (path : String) (kind : Kind)
  | tooManyDigits (t : Scalar.TooManyDigits)
  | span (o : Span.Overflow)
  | overlong
  deriving DecidableEq

def ReadFault.message : ReadFault → String
  | .notFound path => "config value not found at path: " ++ path
  | .traversal t => t.message
  | .unreadable target path _ => "cannot parse value: " ++ path ++ " to " ++ target.text
  | .mismatch .duration path _ => "cannot parse value: " ++ path ++ " to Duration"
  | .mismatch .object path _ => "config value at path: " ++ path ++ " is not an object"
  | .mismatch .array path _ => "config value at path: " ++ path ++ " is not an array"
  | .mismatch .integers path _ =>
    "config value at path: " ++ path ++ " is not an array of integers"
  | .tooManyDigits t => t.message
  | .span o => o.message
  | .overlong => Value.Overlong.message ⟨⟩

structure NotBoolean where
  text : String
  deriving DecidableEq

def NotBoolean.message (n : NotBoolean) : String :=
  "cannot parse value: " ++ n.text ++ " to Boolean"

def Value.booleanOfText (text : String) : Except NotBoolean Value :=
  match Scalar.boolean? text with
  | some b => .ok (.boolean b)
  | none => .error ⟨text⟩

end LayeredConfig
