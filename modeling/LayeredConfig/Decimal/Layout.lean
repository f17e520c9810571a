import LayeredConfig.Decimal.Shortest

/-!
# Layouts of decimal text

The shortest digits of a number can be laid out in different ways.  A layout
says from which exponents on the point is moved, how an exponent is written,
and how the numbers without digits are spelled.
-/

namespace LayeredConfig

/-- How a binary number is written. -/
structure Layout where
  /-- Exponents from the first to below the second are written without an
  exponent mark. -/
  positional : Option (Int × Int)
  nan : String
  infinite : String
  negativeInfinite : String

namespace Layout

/-- Always one digit before the point, and an exponent: `2.4e+00`. -/
def scientific : Layout := ⟨none, "NaN", "+Inf", "-Inf"⟩

/-- Positional from `0.0001` to below ten to the sixteenth, with a fraction
always shown. -/
def plain : Layout := ⟨some (-4, 16), "nan", "inf", "-inf"⟩

/-- As `plain`, with the spellings of JSON. -/
def json : Layout := ⟨some (-4, 16), "NaN", "Infinity", "-Infinity"⟩

/-- Sign and at least two digits. -/
def exponentText (e : Int) : List Char :=
  let ds := Nat.toDigits 10 e.natAbs
  'e' :: (if e < 0 then '-' else '+') :: (if ds.length < 2 then '0' :: ds else ds)

/-- Digits with a point after the first, and an exponent. -/
def scientificText (digits : List Char) (e : Int) : List Char :=
  match digits with
  | [] => exponentText e
  | [d] => d :: exponentText e
  | d :: rest => d :: '.' :: rest ++ exponentText e

/-- Digits with the point moved by the exponent. -/
def positionalText (digits : List Char) (e : Int) : List Char :=
  if e < 0 then
    '0' :: '.' :: List.replicate ((-e).toNat - 1) '0' ++ digits
  else
    let whole := e.toNat + 1
    let padded := digits ++ List.replicate (whole - digits.length) '0'
    let rest := digits.drop whole
    padded.take whole ++ '.' :: (if rest.isEmpty then ['0'] else rest)

def magnitudeText (layout : Layout) (x : Scientific) : List Char :=
  let ds := if x.coefficient = 0 then ['0'] else x.digits
  match layout.positional with
  | some (low, high) =>
    if low ≤ x.exponent && x.exponent < high then positionalText ds x.exponent
    else scientificText ds x.exponent
  | none => scientificText ds x.exponent

def render (layout : Layout) {f : Format} : Binary f → String
  | .nan _ => layout.nan
  | .infinite negative => if negative then layout.negativeInfinite else layout.infinite
  | .finite negative code =>
    let x := if code.val = 0 then ⟨0, 0⟩ else Binary.shortest f code
    let text := layout.magnitudeText x
    String.ofList (if negative then '-' :: text else text)

end Layout

namespace Binary

/-- Text of a double at the precision that is asked for. -/
def textAt (x : Double) (narrow : Bool) : String :=
  if !narrow then Layout.scientific.render x
  else
    let y : Single := x.convert .single
    -- Whether there are digits is decided before the double is narrowed, so a finite
    -- one beyond single precision reads `inf`.
    if x.isFinite && y.isInfinite then Layout.plain.render y else Layout.scientific.render y

end Binary

end LayeredConfig
