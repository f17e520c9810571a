import LayeredConfig.Path
import LayeredConfig.Value.Basic

/-!
# Lookup

A path is followed from an object through nested objects.  A key that is
missing makes the value absent; a value that is not an object, met before the
last key, blocks the way.
-/

namespace LayeredConfig

/-- A value that is not an object, where a path wanted to go on. -/
structure Blocked where
  place : Path
  kind : Kind
  deriving DecidableEq

/-- The same place, seen from an object that holds the start under `key`. -/
def Blocked.under (key : String) (b : Blocked) : Blocked := ⟨key :: b.place, b.kind⟩

/-- Follows the keys; nothing is at the end of no keys. -/
def Value.walk : Members Text Value → Path → Except Blocked (Option Value)
  | _, [] => .ok none
  | members, [key] => .ok (members.get? key)
  | members, key :: next :: rest =>
    match members.get? key with
    | none => .ok none
    | some (.object inner) => (Value.walk inner (next :: rest)).mapError (Blocked.under key)
    | some v => .error ⟨[key], v.kind⟩

/-- A path that cannot be followed to its end. -/
structure Traversal where
  path : String
  place : String
  kind : Kind
  deriving DecidableEq

def Traversal.message (t : Traversal) : String :=
  "path " ++ t.path ++ " traverses through a non-object value at: " ++ t.place

def Value.find (members : Members Text Value) (path : Path) : Except Traversal (Option Value) :=
  -- A path with an empty key leads nowhere, whatever stands on the way.
  if path.any String.isEmpty then .ok none
  else (Value.walk members path).mapError fun b ↦ ⟨Path.text path, Path.text b.place, b.kind⟩

end LayeredConfig
