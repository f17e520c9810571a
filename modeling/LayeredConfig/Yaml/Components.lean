import LayeredConfig.Yaml.Fault

/-!
# Spans from components

A span is given as named amounts of units.  Integers are summed exactly.  A
float adds its whole part exactly; its fraction is converted to microseconds
as a double, whose whole part counts and whose own fraction is left over.
What is left over of all components is rounded once, and on an exact half the
sum is made even.
-/

namespace LayeredConfig.Yaml.Components

/-- The units and their microseconds, in the order in which they count. -/
def units : List (String × Nat) :=
  [("microseconds", 1), ("milliseconds", 1000), ("seconds", 1000000), ("minutes", 60000000),
    ("hours", 3600000000), ("days", 86400000000), ("weeks", 604800000000)]

/-- An amount of a unit, or the type of what is none. -/
inductive Amount where
  | int (n : Int)
  | double (x : Double)
  | other (typeName : String)

/-- The sum so far, and what is left over of its components. -/
structure Sum where
  whole : Int
  leftover : Double

def Sum.zero : Sum := ⟨0, Binary.zero .double false⟩

/-- Adds an amount of a unit of so many microseconds. -/
def Sum.add (s : Sum) (unit : String) (factor : Nat) : Amount → Except ScalarFault Sum
  | .int n => .ok { s with whole := s.whole + n * factor }
  | .other name => .error (.badComponent unit name)
  | .double x =>
    match x.truncate? with
    | none => .error (if x.isNaN then .nanComponent else .infiniteComponent)
    | some whole =>
      let total := s.whole + whole * factor
      let part := (Binary.ofInt .double factor).mul x.fraction
      match part.truncate? with
      | none => .ok { s with whole := total }
      | some micros =>
        if x.fraction.sameNumber (.zero .double false) then .ok { s with whole := total }
        else .ok ⟨total + micros, s.leftover.add part.fraction⟩

/-- Quotient to the nearest integer; a half goes away from zero. -/
def roundAway (num : Int) (den : Nat) : Int :=
  let magnitude : Int := (2 * num.natAbs + den) / (2 * den)
  if num < 0 then -magnitude else magnitude

/-- The rounded sum: of the two integers beside an exact half, the one that
makes the sum even. -/
def Sum.round (s : Sum) : Int :=
  match s.leftover.signedUnits? with
  | none => s.whole
  | some n =>
    let den := Format.double.one
    if 2 * (n.natAbs % den) = den then
      let odd := s.whole % 2
      s.whole + (2 * roundAway (n + odd * den) (2 * den) - odd)
    else s.whole + roundAway n den

def sum (components : List (String × Amount)) : Except ScalarFault Int := do
  let s ← units.foldlM (fun s (unit, factor) ↦
    match components.lookup unit with
    | some amount => s.add unit factor amount
    | none => .ok s) Sum.zero
  return s.round

end LayeredConfig.Yaml.Components
