import LayeredConfig.Value.Basic

/-!
# Layers

One object is laid over another.  Objects that both hold under a key are
layered again; any other value of the upper object hides the lower one.  The
keys of the lower object come first, in their order, and the new keys of the
upper one follow in theirs.
-/

namespace LayeredConfig.Value

mutual

/-- The value that shows when `upper` is laid over `lower`. -/
def overlay (upper lower : Value) : Value :=
  match upper, lower with
  | .object members, .object base => .object (layer members base)
  | upper, _ => upper

/-- Members of the upper object, laid one after another over the lower. -/
def layer : List (Text × Value) → Members Text Value → Members Text Value
  | [], base => base
  | (key, v) :: rest, base =>
    let shown :=
      match base.get? key.content with
      | some w => v.overlay w
      | none => v
    layer rest (base.put key shown)

end

end LayeredConfig.Value
