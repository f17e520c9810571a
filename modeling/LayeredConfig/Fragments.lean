import LayeredConfig.Layer
import LayeredConfig.Value.Text

/-!
# Joining fragments

Adjacent fragments become one value.  Objects are layered from the left, each
over those before it; fragments without an object among them are joined as
texts.  An object beside anything else cannot be joined.
-/

namespace LayeredConfig.Fragments

inductive Fault where
  | noFragments
  /-- A fragment that is no object stands beside an object. -/
  | mixed (text : String) (kind : Kind)
  | overlong
  deriving DecidableEq

/-- The members of fragments that are all objects; otherwise the first
fragment that is none. -/
def allMembers : List Value → Except Value (List (Members Text Value))
  | [] => .ok []
  | .object members :: rest => (allMembers rest).map (members :: ·)
  | v :: _ => .error v

/-- Layers members from the left. -/
def layerAll : List (Members Text Value) → Members Text Value
  | [] => []
  | first :: rest => rest.foldl (fun base members ↦ Value.layer members base) first

def joinTexts (fragments : List Value) : Except Fault Value :=
  match (Value.concatenation fragments).render with
  | .ok text => .ok (.string text)
  | .error _ => .error .overlong

/-- The one value of some fragments. -/
def join (fragments : List Value) : Except Fault Value :=
  if fragments.isEmpty then .error .noFragments
  else if !fragments.any Value.isObject then joinTexts fragments
  else
    match allMembers fragments with
    | .ok layers => .ok (.object (layerAll layers))
    | .error v =>
      match v.render with
      | .ok text => .error (.mixed text v.kind)
      | .error _ => .error .overlong

end LayeredConfig.Fragments
