import LayeredConfig.Decimal.Shortest
import LayeredConfig.Text.Blank
import LayeredConfig.Text.Digit

/-!
# Numerals

Reading of integers and of floating point numbers from text.  Digits of every
script count, blanks at the ends do not, and single underscores may stand
between digits.  Floats are rounded once from their exact value.
-/

namespace LayeredConfig

namespace Binary

/-- The number nearest to `m` times ten to the power of `e`. -/
def ofDecimal (f : Format) (negative : Bool) (m : Nat) (e : Int) : Binary f :=
  -- Exponents far out of range are decided without computing the power.
  let top : Int := digitCount m + e
  if m = 0 || top < -(f.scale : Int) then zero f negative
  else if (f.exponentLimit : Int) < top then .infinite negative
  else if 0 ≤ e then ofRatio f negative (m * Nat.pow 10 e.toNat) 1
  else ofRatio f negative m (Nat.pow 10 (-e).toNat)

/-- The number nearest to `m` times two to the power of `e`. -/
def ofDyadic (f : Format) (negative : Bool) (m : Nat) (e : Int) : Binary f :=
  let top : Int := m.log2 + e
  if m = 0 || top < -(f.scale : Int) - 2 then zero f negative
  else if (f.exponentLimit : Int) < top then .infinite negative
  else if 0 ≤ e then ofRatio f negative (m * Nat.pow 2 e.toNat) 1
  else ofRatio f negative m (Nat.pow 2 (-e).toNat)

end Binary

namespace Numeral

open Text

/-- Most decimal digits that an integer is read or written with. -/
def digitLimit : Nat := 4300

inductive Refusal where
  | malformed
  | tooLong (digits : Nat)
  deriving DecidableEq

/-- Digits of all scripts as ASCII digits, and blanks outside ASCII as spaces. -/
def normalChar (c : Char) : Char :=
  if c.toNat < 0x80 then c
  else if isBlank c then ' '
  else match digit? c with
    | some d => Char.ofNat (48 + d)
    | none => c

/-- The blanks of ASCII, the information separators left out. -/
def isSpace (c : Char) : Bool := c == ' ' || 0x09 ≤ c.toNat && c.toNat ≤ 0x0D

/-- Normal characters without the spaces at the ends. -/
def normal (cs : List Char) : List Char :=
  (((cs.map normalChar).dropWhile isSpace).reverse.dropWhile isSpace).reverse

/-- An optional sign, and what follows. -/
def takeSign : List Char → Bool × List Char
  | '-' :: rest => (true, rest)
  | '+' :: rest => (false, rest)
  | cs => (false, cs)

/-- Value of a list of digits, the most significant first. -/
def ofDigits (base : Nat) (digits : List Nat) : Nat :=
  digits.foldl (fun n d ↦ base * n + d) 0

/-- The digits of a text in which single underscores may stand between them. -/
def groupedDigits? (base : Nat) (cs : List Char) : Option (List Nat) := do
  let groups ← (cs.splitOn '_').mapM fun group ↦
    if group.isEmpty then none else group.mapM (baseDigit? base)
  return groups.flatten

/-- What follows a mark of the base such as `0x`. -/
def dropBaseMark (base : Nat) : List Char → List Char
  | '0' :: mark :: rest =>
    let marks : List Char :=
      if base = 16 then ['x', 'X'] else if base = 8 then ['o', 'O']
      else if base = 2 then ['b', 'B'] else []
    if marks.contains mark then
      -- One underscore may stand after the mark.
      match rest with
      | '_' :: digits => digits
      | digits => digits
    else '0' :: mark :: rest
  | cs => cs

def readInt (base : Nat) (cs : List Char) : Except Refusal Int :=
  let (negative, rest) := takeSign (normal cs)
  let body := dropBaseMark base rest
  let run := body.takeWhile fun c ↦ (baseDigit? base c).isSome || c == '_'
  match groupedDigits? base run with
  | none => .error .malformed
  | some digits =>
    -- Numerals whose base is a power of two may have more digits than the limit.  Too
    -- many are refused before what follows them is looked at.
    if digitLimit < digits.length && Nat.pow 2 base.log2 != base then
      .error (.tooLong digits.length)
    else if run.length < body.length then .error .malformed
    else
      let n : Int := ofDigits base digits
      .ok (if negative then -n else n)

def ofInt (n : Int) : String :=
  if n < 0 then "-" ++ n.natAbs.repr else n.natAbs.repr

/-- Whether an integer has too many digits to be written. -/
def isOverlong (n : Int) : Bool := Nat.pow 10 digitLimit ≤ n.natAbs

/-- The text without its underscores, each of which must stand between two
digits. -/
def dropUnderscores (before : Char) : List Char → Option (List Char)
  | [] => some []
  | '_' :: c :: rest =>
    if before.isDigit && c.isDigit then (dropUnderscores c rest).map (c :: ·) else none
  | c :: rest => if c = '_' then none else (dropUnderscores c rest).map (c :: ·)

/-- An exponent after one of the marks: an optional sign and digits. -/
def exponent? (marks : List Char) : List Char → Option Int
  | mark :: rest =>
    let (negative, digits) := takeSign rest
    if marks.contains mark && !digits.isEmpty then
      (digits.mapM asciiDigit?).map fun ds ↦
        if negative then -(ofDigits 10 ds : Int) else ofDigits 10 ds
    else none
  | [] => none

/-- A text split at its first point, if it has one. -/
def splitPoint (cs : List Char) (isDigit : Char → Bool) : List Char × List Char × List Char :=
  match cs.dropWhile isDigit with
  | '.' :: rest => (cs.takeWhile isDigit, rest.takeWhile isDigit, rest.dropWhile isDigit)
  | rest => (cs.takeWhile isDigit, [], rest)

/-- Coefficient and exponent of a decimal numeral without a sign. -/
def decimal? (cs : List Char) : Option (Nat × Int) := do
  let (whole, fraction, rest) := splitPoint cs Char.isDigit
  let digits ← (whole ++ fraction).mapM asciiDigit?
  if digits.isEmpty then none
  let e ← if rest.isEmpty then some 0 else exponent? ['e', 'E'] rest
  return (ofDigits 10 digits, e - fraction.length)

def word? (f : Format) (negative : Bool) (cs : List Char) : Option (Binary f) :=
  match String.ofList (cs.map Char.toLower) with
  | "inf" | "infinity" => some (.infinite negative)
  | "nan" => some (.nan none)
  | _ => none

/-- Reads a floating point number; beyond the range it is infinite. -/
def readFloat (cs : List Char) : Option Double := do
  let plain ← dropUnderscores ' ' (normal cs)
  let (negative, rest) := takeSign plain
  match word? .double negative rest with
  | some x => return x
  | none =>
    let (m, e) ← decimal? rest
    return Binary.ofDecimal .double negative m e

def isHexDigit (c : Char) : Bool := (baseDigit? 16 c).isSome

/-- Coefficient and binary exponent of a hexadecimal numeral without a sign,
such as `0x1.8p-2`. -/
def hexadecimal? (exponentOptional : Bool) (cs : List Char) : Option (Nat × Int) := do
  match cs with
  | '0' :: x :: rest =>
    if x ≠ 'x' && x ≠ 'X' then none
    let (whole, fraction, tail) := splitPoint rest isHexDigit
    let digits ← (whole ++ fraction).mapM (baseDigit? 16)
    if digits.isEmpty then none
    let e ← if exponentOptional && tail.isEmpty then some 0 else exponent? ['p', 'P'] tail
    return (ofDigits 16 digits, e - 4 * fraction.length)
  | _ => none

/-- Reads a hexadecimal numeral; the exponent is required. -/
def readHexFloat (cs : List Char) : Option Double := do
  let (negative, rest) := takeSign cs
  let (m, e) ← hexadecimal? false rest
  return Binary.ofDyadic .double negative m e

/-- A word for no number, with letters, digits and underscores in brackets. -/
def isMarkedNaN (cs : List Char) : Bool :=
  String.ofList ((cs.take 4).map Char.toLower) == "nan(" &&
    (cs.drop 4).dropWhile (fun c ↦ c.isAlphanum || c == '_') == [')']

/-- Reads a number of a wide format.  Spaces may stand in front, digits are
those of ASCII, hexadecimal numerals count and underscores do not. -/
def readWide (f : Format) (cs : List Char) : Option (Binary f) := do
  let (negative, rest) := takeSign (cs.dropWhile isSpace)
  match word? f negative rest with
  | some x => return x
  | none =>
    if isMarkedNaN rest then return .nan none
    match hexadecimal? true rest with
    | some (m, e) => return Binary.ofDyadic f negative m e
    | none =>
      let (m, e) ← decimal? rest
      return Binary.ofDecimal f negative m e

end Numeral

end LayeredConfig
