import LayeredConfig.Value.Basic

/-!
# Values that are kept

A value that is kept as a document of its own is known again.  A NaN in it has
no origin yet if it was given as it stands; it then comes from its place, so
the value is the same as itself and as what is taken from it.
-/

namespace LayeredConfig.Value

/-- The next place of a document. -/
def nextPlace (document : Nat) : StateM Nat Origin := do
  let index ← get
  set (index + 1)
  return .place document index

mutual

/-- The value with origins for its NaNs, from the next place on. -/
def placeAll (document : Nat) : Value → StateM Nat Value
  | .single x => do return .single (x.withOrigin (← nextPlace document))
  | .double x => do return .double (x.withOrigin (← nextPlace document))
  | .object members => do return .object (← placeMembers document members)
  | .array elements => do return .array (← placeItems document elements)
  | .concatenation fragments => do return .concatenation (← placeItems document fragments)
  | .alternative v r => do return .alternative (← placeAll document v) r
  | v => return v

def placeMembers (document : Nat) : List (Text × Value) → StateM Nat (List (Text × Value))
  | [] => return []
  | (k, v) :: rest => do
    let v ← placeAll document v
    return (k, v) :: (← placeMembers document rest)

def placeItems (document : Nat) : List Value → StateM Nat (List Value)
  | [] => return []
  | v :: rest => do
    let v ← placeAll document v
    return v :: (← placeItems document rest)

end

/-- The value as the document of a number. -/
def placed (v : Value) (document : Nat) : Value := ((placeAll document v).run 0).1

end LayeredConfig.Value
