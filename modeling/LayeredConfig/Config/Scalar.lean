import LayeredConfig.Decimal.Numeral

/-!
# Scalars in texts

Which texts are read as whole numbers, floating point numbers and truth
values.  Whole numbers have ASCII digits and fit in 64 bits.  Floats have no
blank at either end and no underscore, may be hexadecimal, and are infinite
only if they spell an infinity.
-/

namespace LayeredConfig.Scalar

structure TooManyDigits where
  digits : Nat
  deriving DecidableEq

def TooManyDigits.message (t : TooManyDigits) : String :=
  "Exceeds the limit (4300 digits) for integer string conversion: value has " ++ t.digits.repr ++
    " digits; use sys.set_int_max_str_digits() to increase the limit"

/-- The least and the greatest whole number of 64 bits. -/
def intMin : Int := -9223372036854775808

def intMax : Int := 9223372036854775807

/-- The 64-bit whole number that a text spells. -/
def int? (text : String) : Except TooManyDigits (Option Int) :=
  let (negative, digits) := Numeral.takeSign text.toList
  match digits.mapM Text.asciiDigit? with
  | none | some [] => .ok none
  | some ds =>
    if Numeral.digitLimit < ds.length then .error ⟨ds.length⟩
    else
      let magnitude : Int := Numeral.ofDigits 10 ds
      let n := if negative then -magnitude else magnitude
      .ok (if intMin ≤ n && n ≤ intMax then some n else none)

def holdsWord (word : List Char) : List Char → Bool
  | [] => word.isEmpty
  | c :: rest => word.isPrefixOf (c :: rest) || holdsWord word rest

/-- Whether a text holds the letters of an infinity, in either case. -/
def spellsInfinity (cs : List Char) : Bool :=
  holdsWord ['i', 'n', 'f'] (cs.map Char.toLower)

def double? (text : String) : Option Double :=
  let cs := text.toList
  if cs.isEmpty || Text.strip cs != cs || cs.contains '_' then none
  else
    match (Numeral.readHexFloat cs).or (Numeral.readFloat cs) with
    | some x => if x.isInfinite && !spellsInfinity cs then none else some x
    | none => none

def single? (text : String) : Option Single :=
  match double? text with
  | some x =>
    let y : Single := x.convert .single
    -- A finite double must stay finite.
    if x.isFinite == y.isFinite then some y else none
  | none => none

def boolean? (text : String) : Option Bool :=
  if ["true", "yes", "on"].contains text then some true
  else if ["false", "no", "off"].contains text then some false
  else none

end LayeredConfig.Scalar
