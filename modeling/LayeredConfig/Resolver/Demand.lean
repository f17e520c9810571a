import LayeredConfig.Lookup

/-!
# What a path demands

Following a path through a document that still holds references ends in one of
five ways.  Only the document as it stands is looked at; nothing is resolved
yet.
-/

namespace LayeredConfig

/-- Where a path leads in a document with references. -/
inductive Demand where
  /-- Nothing is there. -/
  | absent
  /-- The value that stands there. -/
  | node (v : Value)
  /-- The way goes on at another path. -/
  | redirect (path : Path)
  /-- The way crosses a value that has to be resolved first. -/
  | through (place rest : Path)
  /-- The way crosses a value that is no object. -/
  | blocked (b : Blocked)

namespace Demand

/-- The same demand, seen from an object that holds the start under `key`. -/
def under (key : String) : Demand → Demand
  | .through place rest => .through (key :: place) rest
  | .blocked b => .blocked (b.under key)
  | d => d

end Demand

/-- Follows the keys from the members of an object. -/
def Value.demand : Members Text Value → Path → Demand
  | _, [] => .absent
  | members, [key] =>
    match members.get? key with
    | none => .absent
    | some v => .node v
  | members, key :: next :: rest =>
    match members.get? key with
    | none => .absent
    | some (.object inner) => (Value.demand inner (next :: rest)).under key
    | some (.substitution r) => .redirect (Path.ofText r.path ++ next :: rest)
    | some (.concatenation _) => .through [key] (next :: rest)
    | some (.alternative _ _) => .through [key] (next :: rest)
    | some v => .blocked ⟨[key], v.kind⟩

end LayeredConfig
