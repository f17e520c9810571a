import LayeredConfig.Text.Basic

/-!
# Members in insertion order

A finite map as the list of its entries, oldest key first.  Putting a key
that is present keeps its place and its form and takes the new value; a new
key goes to the end.
-/

namespace LayeredConfig

/-- Keys are told apart by their names. -/
class Named (κ : Type) where
  name : κ → String

instance : Named String := ⟨fun s ↦ s⟩

instance : Named Text := ⟨Text.content⟩

abbrev Members (κ α : Type) := List (κ × α)

namespace Members

variable {κ α : Type} [Named κ]

def get? : Members κ α → String → Option α
  | [], _ => none
  | (k, v) :: rest, key => if Named.name k = key then some v else get? rest key

def put : Members κ α → κ → α → Members κ α
  | [], key, v => [(key, v)]
  | (k, w) :: rest, key, v =>
    if Named.name k = Named.name key then (k, v) :: rest else (k, w) :: put rest key v

def keys (ms : Members κ α) : List String := ms.map fun entry ↦ Named.name entry.1

def values (ms : Members κ α) : List α := ms.map Prod.snd

/-- The map of a list of entries: a repeated key keeps its first place and
takes its last value. -/
def ofEntries (entries : List (κ × α)) : Members κ α :=
  entries.foldl (fun ms entry ↦ ms.put entry.1 entry.2) []

end Members

end LayeredConfig
