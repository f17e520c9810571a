import LayeredConfig.Plain.Conversion

/-!
# Building values from unchecked parts

A constructor is given parts that may be anything.  Members are checked pair
by pair, the key before the value; equal keys are one key before any check.
-/

namespace LayeredConfig.Value

inductive BuildFault where
  | notInteger (typeName : String)
  | notText (typeName : String)
  | notValue (owner : Kind) (typeName : String)
  | rootNotValue (typeName : String)
  | noFragments
  | notKey (f : Plain.KeyFault)
  /-- A count of time that is none. -/
  | noCount
  deriving DecidableEq

def BuildFault.message : BuildFault → String
  | .notInteger name => "Int requires an integer, got " ++ name
  | .notText name => "Object keys must be strings, got " ++ name
  | .notValue owner name => owner.name ++ " members must be Value instances, got " ++ name ++
      "; use from_python() to convert plain data"
  | .rootNotValue name => "Config root must be a Value, got " ++ name
  | .noFragments => "Concatenation requires at least one fragment"
  | .notKey f => f.message
  | .noCount => Plain.noCountMessage

def ofPart (owner : Kind) : Plain → Except BuildFault Value
  | .node v => .ok v
  | part => .error (.notValue owner part.typeName)

def int? : Plain → Except BuildFault Value
  | .int n | .sized (.integer _ n) => .ok (.int n)
  | .sized .noCount => .error .noCount
  | part => .error (.notInteger part.typeName)

def member? (entry : Plain × Plain) : Except BuildFault (Text × Value) :=
  match entry with
  | (.string key, part) => (ofPart .object part).map fun v ↦ (key, v)
  | (key, _) => .error (.notText key.typeName)

def object? (entries : List (Plain × Plain)) : Except BuildFault Value := do
  match entries.findSome? fun entry ↦ entry.1.keyBarrier? with
  | some f => .error (.notKey f)
  | none =>
    let members ← (Plain.ofEntries entries).mapM member?
    return .object members

def array? (parts : List Plain) : Except BuildFault Value := do
  return .array (← parts.mapM (ofPart .array))

def concatenation? (parts : List Plain) : Except BuildFault Value := do
  let fragments ← parts.mapM (ofPart .concatenation)
  if fragments.isEmpty then .error .noFragments else return .concatenation fragments

def root? : Plain → Except BuildFault Value
  | .node v => .ok v
  | part => .error (.rootNotValue part.typeName)

end LayeredConfig.Value
