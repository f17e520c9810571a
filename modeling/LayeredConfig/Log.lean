import LayeredConfig.Value.Text

/-!
# Log

The events that are worth a line in a log, and the lines.
-/

namespace LayeredConfig

inductive Event where
  | fragmentsMerged (count : Nat)
  | keyDropped (key : String)
  | elementDropped
  | substituted (target : Reference)
  | leftUnresolved (target : Reference)
  | alternativeUnusable (target : Reference) (reason : String)
  | documentResolved (paths : Nat)
  | layered (upper lower : Nat)
  | fallbackIgnored (upper lower : Kind)
  | documentLoaded (root : Kind) (entries : Nat)

/-- The line of an event: level, source and message. -/
def Event.line : Event → String
  | .fragmentsMerged count => "DEBUG merge: Merged " ++ count.repr ++ " object fragments"
  | .keyDropped key => "DEBUG resolver: Dropping key '" ++ key ++
      "': optional substitution is absent"
  | .elementDropped => "DEBUG resolver: Dropping array element: optional substitution is absent"
  | .substituted target => "DEBUG resolver: Resolved " ++ target.text
  | .leftUnresolved target => "DEBUG resolver: Leaving " ++ target.text ++ " unresolved"
  | .alternativeUnusable target reason => "DEBUG resolver: Alternative " ++ target.text ++
      " not usable (" ++ reason ++ "); keeping default"
  | .documentResolved paths => "DEBUG resolver: Resolved document (" ++ paths.repr ++
      " paths visited)"
  | .layered upper lower => "DEBUG config: Merging " ++ upper.repr ++ " keys over " ++
      lower.repr ++ " fallback keys"
  | .fallbackIgnored upper lower => "DEBUG config: Ignoring fallback: roots are " ++
      upper.text ++ " and " ++ lower.text
  | .documentLoaded root entries => "INFO loader: Loaded YAML document (" ++ root.text ++
      " root, " ++ entries.repr ++ " entries)"

end LayeredConfig
