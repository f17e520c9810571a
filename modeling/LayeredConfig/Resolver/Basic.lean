import LayeredConfig.Resolver.Demand
import LayeredConfig.Resolver.Session

/-!
# Resolving references

A node is resolved by recursion on the node.  Where it refers to a path it
asks `lookup`, and so does an object for the members that a path can name.
Looking a path up is a visit, which resolves the node found there with the
visits nested in it.  A visit of a settled path repeats what was found, and a
visit of a path that is pending closes a cycle.
-/

namespace LayeredConfig.Resolver

/-- A document and whether references that lead nowhere may stay in it. -/
structure Task where
  root : Value
  lenient : Bool

def followReference (lenient : Bool) (lookup : Path → Action (Option Value)) (r : Reference) :
    Action (Option Value) := do
  match ← lookup (Path.ofText r.path) with
  | some v =>
    Action.record (.substituted r)
    return some v
  | none =>
    if r.optional then return none
    else if lenient then
      Action.record (.leftUnresolved r)
      return some (.substitution r)
    else throw (.unresolved r.path)

/-- The value that may override a default, if it can be used. -/
def followOverride (lenient : Bool) (lookup : Path → Action (Option Value)) (r : Reference) :
    Action (Option Value) := do
  match ← Action.outcome (followReference lenient lookup r) with
  | .ok (some v) => return if v.isReference then none else some v
  | .ok none => return none
  | .error fault =>
    if fault.yieldsToDefault then
      Action.record (.alternativeUnusable r fault.message)
      return none
    else throw fault

/-- The value of the fragments of a concatenation that are present. -/
def joinFragments (fragments : List Value) : Action (Option Value) := do
  if fragments.isEmpty then return none
  else if fragments.any Value.isReference then return some (.concatenation fragments)
  else
    match Fragments.join fragments with
    | .error f => throw (.unjoinable f)
    | .ok v =>
      if v.isObject then Action.record (.fragmentsMerged fragments.length)
      return some v

mutual

/-- Resolves a node.  The place is the path of the node, if it has one. -/
def resolveNode (lenient : Bool) (lookup : Path → Action (Option Value)) :
    Value → (place : Option Path) → Action (Option Value)
  | .object members, place => do
    return some (.object (← resolveMembers lenient lookup place members))
  | .array elements, _ => do
    return some (.array (← resolveElements lenient lookup elements))
  | .substitution r, _ => followReference lenient lookup r
  | .concatenation fragments, _ => do
    joinFragments (← resolveFragments lenient lookup fragments)
  | .alternative default override, _ => do
    match ← followOverride lenient lookup override with
    | some v => return some v
    | none => resolveNode lenient lookup default none
  | v, _ => return some v

/-- Resolves the members of an object: by their paths, where they have one,
and in place otherwise. -/
def resolveMembers (lenient : Bool) (lookup : Path → Action (Option Value))
    (place : Option Path) : List (Text × Value) → Action (List (Text × Value))
  | [] => return []
  | (key, child) :: rest => do
    let found ←
      match place with
      | none => resolveNode lenient lookup child none
      | some path =>
        if Path.isPlainKey key.content then lookup (path ++ [key.content])
        else resolveNode lenient lookup child none
    match found with
    | some v => return (key, v) :: (← resolveMembers lenient lookup place rest)
    -- A member that comes to nothing is dropped, as are elements and fragments.
    | none =>
      Action.record (.keyDropped key.shown)
      resolveMembers lenient lookup place rest

def resolveElements (lenient : Bool) (lookup : Path → Action (Option Value)) :
    List Value → Action (List Value)
  | [] => return []
  | element :: rest => do
    match ← resolveNode lenient lookup element none with
    | some v => return v :: (← resolveElements lenient lookup rest)
    | none =>
      Action.record .elementDropped
      resolveElements lenient lookup rest

def resolveFragments (lenient : Bool) (lookup : Path → Action (Option Value)) :
    List Value → Action (List Value)
  | [] => return []
  | fragment :: rest => do
    match ← resolveNode lenient lookup fragment none with
    | some v => return v :: (← resolveFragments lenient lookup rest)
    | none => resolveFragments lenient lookup rest

end

/-- The value at a path of the document, resolved. -/
def compute (task : Task) (lookup : Path → Action (Option Value)) (path : Path) :
    Action (Option Value) := do
  match task.root with
  | .object members =>
    if path.any String.isEmpty then return none
    else
      match Value.demand members path with
      | .absent => return none
      | .node v => resolveNode task.lenient lookup v (some path)
      | .redirect target => lookup target
      | .blocked b => throw (.traversal ⟨Path.text path, Path.text b.place, b.kind⟩)
      | .through place rest =>
        match ← lookup place with
        | none => return none
        | some (.object inner) =>
          match Value.find inner rest with
          | .ok found => return found
          | .error t => throw (.traversal t)
        | some v => throw (.traversal ⟨Path.text path, Path.text place, v.kind⟩)
  | _ => return none

/-- One visit of a path.  The work is what finds the value that stands there. -/
def visit (path : Path) (work : Action (Option Value)) : Action (Option Value) := do
  let session ← get
  match session.settled? path with
  | some found => return found
  | none =>
    if session.pending.contains path then
      throw (.cyclic (Path.text path) ((session.chainFrom path).map Path.text))
    modify (·.enter path)
    let result ← Action.outcome work
    modify (·.leave)
    match result with
    | .ok found =>
      modify (·.settle path found)
      return found
    | .error fault => throw fault

/-- Visits a path, with visits nested at most so deep. -/
def lookupWithin (task : Task) : (depth : Nat) → Path → Action (Option Value)
  | 0, _ => Action.exhausted
  | depth + 1, path => visit path (compute task (lookupWithin task depth) path)

def resolvePath (task : Task) (depth : Nat) (path : String) : Action (Option Value) :=
  lookupWithin task depth (Path.ofText path)

def resolveRoot (task : Task) (lookup : Path → Action (Option Value)) : Action Value := do
  -- The root stands at the path of no keys.
  let found ← resolveNode task.lenient lookup task.root (some [])
  Action.record (.documentResolved (← get).settled.length)
  -- Nothing at the root reads as null.
  return found.getD .null

def resolveDocument (task : Task) (depth : Nat) : Action Value :=
  resolveRoot task (lookupWithin task depth)

/-- Nesting of visits that is far beyond what documents need. -/
def defaultDepth : Nat := 2000

end LayeredConfig.Resolver
