import LayeredConfig.Value.Basic

/-!
# Equality of values

Two values are the same when they are of one kind and hold the same data.  The
order of the members of an object does not count and neither does the width of
a text, the two zeros are one number, and a NaN is the same as itself only.
-/

namespace LayeredConfig.Value

mutual

def same : Value → Value → Bool
  | .null, .null => true
  | .boolean a, .boolean b => a == b
  | .string a, .string b => a.content == b.content
  | .int a, .int b => a == b
  | .single a, .single b => a.sameNumber b
  | .double a, .double b => a.sameNumber b
  | .duration a, .duration b => a == b
  | .object a, .object b => a.length == b.length && sameMembers a b
  | .array a, .array b => sameElements a b
  | .substitution a, .substitution b => a == b
  | .concatenation a, .concatenation b => sameElements a b
  | .alternative v a, .alternative w b => v.same w && a == b
  | _, _ => false

/-- Every member of the first list is in the second. -/
def sameMembers : List (Text × Value) → Members Text Value → Bool
  | [], _ => true
  | (k, v) :: rest, members =>
    (match members.get? k.content with
      | some w => v.same w
      | none => false) && sameMembers rest members

def sameElements : List Value → List Value → Bool
  | [], [] => true
  | v :: vs, w :: ws => v.same w && sameElements vs ws
  | _, _ => false

end

end LayeredConfig.Value
