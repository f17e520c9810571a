import LayeredConfig.Decimal.Numeral

/-!
# Complex numerals

A complex number is written as a real part, an imaginary part with a mark
behind it, or both, the second with a sign.  It may stand in brackets.
-/

namespace LayeredConfig.Numeral

/-- The longest numeral that a text starts with, and what follows it. -/
def leadingFloat? (cs : List Char) : Option (Double × List Char) :=
  let (negative, rest) := takeSign cs
  let starts (word : String) : Bool :=
    String.ofList ((rest.take word.length).map Char.toLower) == word
  if starts "infinity" then some (.infinite negative, rest.drop 8)
  else if starts "inf" then some (.infinite negative, rest.drop 3)
  else if starts "nan" then some (.nan none, rest.drop 3)
  else
    let (whole, fraction, tail) := splitPoint rest Char.isDigit
    let head := rest.take (rest.length - tail.length)
    let marked := tail.take 1 ++ (tail.drop 1).takeWhile fun c ↦ c == '+' || c == '-'
    let numeral := head ++ marked ++ (tail.drop marked.length).takeWhile Char.isDigit
    let read (numeral : List Char) : Option (Double × List Char) :=
      (decimal? numeral).map fun (m, e) ↦
        (Binary.ofDecimal .double negative m e, rest.drop numeral.length)
    if whole.isEmpty && fraction.isEmpty then none else (read numeral).or (read head)

inductive ComplexRefusal where
  | underscores
  | malformed
  deriving DecidableEq

/-- Reads the real part, the imaginary part, or both, and what follows them. -/
def complexParts? (cs : List Char) : Option (Double × Double × List Char) :=
  let zero : Double := .zero .double false
  let isMark (c : Char) : Bool := c == 'j' || c == 'J'
  -- A sign alone is a unit in front of the mark of the imaginary part.
  let unit (cs : List Char) : Double × List Char :=
    let (negative, rest) := takeSign cs
    (Binary.ofRatio .double negative 1 1, rest)
  match leadingFloat? cs with
  | some (x, rest) =>
    match rest with
    | c :: tail =>
      if isMark c then some (zero, x, tail)
      else if c == '+' || c == '-' then
        let (y, rest) := (leadingFloat? rest).getD (unit rest)
        match rest with
        | c :: tail => if isMark c then some (x, y, tail) else none
        | [] => none
      else some (x, zero, rest)
    | [] => some (x, zero, [])
  | none =>
    let (y, rest) := unit cs
    match rest with
    | c :: tail => if isMark c then some (zero, y, tail) else none
    | [] => none

/-- Reads a complex number, which may stand in brackets. -/
def readComplex (cs : List Char) : Except ComplexRefusal (Double × Double) :=
  match dropUnderscores ' ' (cs.map normalChar) with
  | none => .error .underscores
  | some plain =>
    let body := plain.dropWhile isSpace
    let (bracketed, body) := match body with
      | '(' :: rest => (true, rest.dropWhile isSpace)
      | body => (false, body)
    match complexParts? body with
    | none => .error .malformed
    | some (x, y, rest) =>
      let left := match bracketed, rest.dropWhile isSpace with
        | true, ')' :: left => some (left.dropWhile isSpace)
        | true, _ => none
        | false, left => some left
      if left = some [] then .ok (x, y) else .error .malformed

end LayeredConfig.Numeral
