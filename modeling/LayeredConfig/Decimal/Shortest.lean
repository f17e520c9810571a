import LayeredConfig.Float.Binary

/-!
# Shortest decimals

The decimal with the fewest digits that reads back as a given binary number,
and of those the nearest to it.  Every finite binary number has finitely many
decimal digits, so the search runs over the naturals: scaled by a power of
ten the number, its neighbours and all candidates are natural numbers.
-/

namespace LayeredConfig

/-- A positive decimal in scientific form: the digits of `coefficient` with a
point after the first, times ten to the power of `exponent`. -/
structure Scientific where
  coefficient : Nat
  exponent : Int

namespace Scientific

/-- Digits of the coefficient, without the zeros at the end. -/
def digits (x : Scientific) : List Char :=
  ((Nat.toDigits 10 x.coefficient).reverse.dropWhile (· = '0')).reverse

end Scientific

/-- Count of the decimal digits of a natural number; zero has one. -/
def digitCount (n : Nat) : Nat := (Nat.toDigits 10 n).length

namespace Binary

/-- The reals that round to a code, in half units: the midpoints towards its
neighbours.  They belong to it when the code is even. -/
structure Interval where
  lower : Nat
  upper : Nat
  closed : Bool

namespace Interval

def contains (i : Interval) (x : Nat) : Bool :=
  if i.closed then i.lower ≤ x && x ≤ i.upper else i.lower < x && x < i.upper

end Interval

/-- The interval of a positive code, with units divided by ten to the power of
`f.scale`. -/
def roundingInterval (f : Format) (code : Nat) : Interval where
  lower := (f.units (code - 1) + f.units code) * Nat.pow 5 f.scale
  upper := (f.units code + f.units (code + 1)) * Nat.pow 5 f.scale
  closed := code % 2 == 0

/-- The neighbour of `x` on the grid of multiples of `step` that lies in the
interval, as a number of steps; of two the nearer, of two equally near the
even one. -/
def onGrid (i : Interval) (x step : Nat) : Option Nat :=
  let low := x / step
  let high := low + 1
  match i.contains (2 * low * step), i.contains (2 * high * step) with
  | true, true => some (Format.halfEven x step)
  | true, false => some low
  | false, true => some high
  | false, false => none

/-- Shortest decimal of the number with a positive finite code. -/
def shortest (f : Format) (code : Nat) : Scientific :=
  let x := f.units code * Nat.pow 5 f.scale
  let count := digitCount x
  let interval := roundingInterval f code
  let exponent : Int := (count : Int) - 1 - f.scale
  let found := (List.range count).findSome? fun n ↦
    (onGrid interval x (Nat.pow 10 (count - 1 - n))).map fun steps ↦ (n, steps)
  match found with
  | some (n, steps) =>
    ⟨steps, if steps = Nat.pow 10 (n + 1) then exponent + 1 else exponent⟩
  | none => ⟨x, exponent⟩

end Binary

end LayeredConfig
