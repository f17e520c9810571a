import LayeredConfig.Value.Build
import LayeredConfig.Value.Same

/-!
# Values as sequences

Arrays and concatenations are read by position.  A negative position counts
from the end, and a slice runs from a start to before a stop in steps of any
sign.
-/

namespace LayeredConfig.Value

/-- The items of an array or a concatenation. -/
def items? : Value → Option (List Value)
  | .array elements => some elements
  | .concatenation fragments => some fragments
  | _ => none

inductive ItemFault where
  | outOfRange
  /-- The number is too large to be a position of anything. -/
  | noPosition
  deriving DecidableEq

def ItemFault.message : ItemFault → String
  | .outOfRange => "tuple index out of range"
  | .noPosition => "cannot fit 'int' into an index-sized integer"

/-- Positions are below this, from either end. -/
def positionBound : Int := Nat.pow 2 63

def item {α : Type} (items : List α) (position : Int) : Except ItemFault α :=
  if position < -positionBound || positionBound ≤ position then .error .noPosition
  else
    let i := if position < 0 then position + items.length else position
    match if i < 0 then none else items[i.toNat]? with
    | some x => .ok x
    | none => .error .outOfRange

/-- A bound of a slice, moved into the range of positions. -/
def clamp (length : Nat) (low high : Int) (bound : Int) : Int :=
  max low (min high (if bound < 0 then bound + length else bound))

/-- Positions of a slice; an absent bound is the end that the step starts
from or runs to. -/
def slicePositions (length : Nat) (start stop : Option Int) (step : Int) : List Nat :=
  if 0 < step then
    let first := (start.map (clamp length 0 length)).getD 0
    let last := (stop.map (clamp length 0 length)).getD length
    let count := ((last - first + step - 1).fdiv step).toNat
    (List.range count).map fun (k : Nat) ↦ (first + k * step).toNat
  else
    let first := (start.map (clamp length (-1) (length - 1))).getD (length - 1)
    let last := (stop.map (clamp length (-1) (length - 1))).getD (-1)
    let count := ((first - last - step - 1).fdiv (-step)).toNat
    (List.range count).map fun (k : Nat) ↦ (first + k * step).toNat

inductive SliceFault where
  | zeroStep
  | noFragments
  deriving DecidableEq

def SliceFault.message : SliceFault → String
  | .zeroStep => "slice step cannot be zero"
  | .noFragments => BuildFault.message .noFragments

def sliceItems {α : Type} (items : List α) (start stop : Option Int) (step : Int) : List α :=
  (slicePositions items.length start stop step).filterMap fun i ↦ items[i]?

/-- A slice of a sequence is a sequence of its kind. -/
def slice (v : Value) (start stop : Option Int) (step : Int) : Except SliceFault Value :=
  if step = 0 then .error .zeroStep
  else
    match v with
    | .array elements => .ok (.array (sliceItems elements start stop step))
    | .concatenation fragments =>
      match sliceItems fragments start stop step with
      | [] => .error .noFragments
      | kept => .ok (.concatenation kept)
    | v => .ok v

/-- Position of the first item that is the same value. -/
def position? (items : List Value) (v : Value) : Option Nat := items.findIdx? (·.same v)

def occurrences (items : List Value) (v : Value) : Nat := items.countP (·.same v)

end LayeredConfig.Value
